import YangSubscriptions.Proofs.Delivery.Flags

/-!
# What was sent

How many messages about a subscription listeners accepted, whoever has taken them since and whether or not
the listeners are still attached (`sentTo`). Only a message that is accepted changes the number
(`sentTo_put`); every other change of the dispatcher is silent (`Silent.sentTo_eq`). No listener ever holds
messages about two subscriptions (`Addressed`).
-/

namespace YangSubscriptions

theorem Message.id_of_encode {id : SubscriptionId} {encoding : Encoding} {time : Instant} {body : Node}
    {schema : Schema} {m : Message} (h : Message.encode id encoding time body schema = .ok m) : m.id = id := by
  cases encoding with
  | json =>
    cases h
    rfl
  | xml =>
    unfold Message.encode at h
    cases htext : Notification.xmlEnvelope schema time body with
    | error e =>
      rw [htext] at h
      cases h
    | ok text =>
      rw [htext] at h
      cases h
      rfl

/-- One member more in one list of a family. -/
theorem countP_flatMap_range {α : Type} {f g : Nat → List α} {l : Nat} {a : α} (hl : g l = f l ++ [a])
    (hne : ∀ k, k ≠ l → g k = f k) (p : α → Bool) (n : Nat) :
    ((List.range n).flatMap g).countP p =
      ((List.range n).flatMap f).countP p + if l < n ∧ p a = true then 1 else 0 := by
  induction n with
  | zero => simp
  | succ n ih =>
    simp only [List.range_succ, List.flatMap_append, List.countP_append, ih, List.flatMap_singleton]
    by_cases hn : n = l
    · subst hn
      simp [hl, List.countP_append, Nat.add_assoc]
    · rw [hne n hn]
      have hlt : l < n + 1 ↔ l < n := by omega
      simp only [hlt]
      omega

namespace Dispatcher

/-- How many messages about a subscription listeners accepted. -/
def sentTo (d : Dispatcher) (id : SubscriptionId) : Nat :=
  ((List.range d.listeners.size).flatMap d.accepted).countP (·.id = id)

/-- Are all messages of a listener about one subscription, the one it is attached to if it is attached? -/
def Addressed (d : Dispatcher) : Prop :=
  ∀ l, ∃ id, (∀ m ∈ d.accepted l, m.id = id) ∧ ∀ id', d.attached.get? id' = some l → id' = id

theorem addressed_empty : Addressed empty := fun _ => ⟨0, nofun, nofun⟩

theorem Sound.accepted_of_size_le {d : Dispatcher} (h : d.Sound) {l : ListenerId} (hl : d.listeners.size ≤ l) :
    d.accepted l = [] := by
  have hnone : d.listener? l = none := by
    rw [← Option.isNone_iff_eq_none, ← Option.isSome_eq_false_iff, ← Bool.not_eq_true, h.numbered]
    exact Nat.not_lt.2 hl
  rw [accepted, hnone]
  rfl

/-! ## Silence -/

/-- No listener accepts anything, neither one that was there nor a new one. -/
structure Silent (d d' : Dispatcher) : Prop extends Keeps d d' where
  accepted : ∀ l, d'.accepted l = d.accepted l

theorem Silent.refl (d : Dispatcher) : d.Silent d := ⟨.refl d, fun _ => rfl⟩

theorem Silent.sentTo_eq {d d' : Dispatcher} (h : d.Silent d') (hsound : d.Sound) (id : SubscriptionId) :
    d'.sentTo id = d.sentTo id := by
  obtain ⟨k, hk⟩ := Nat.exists_eq_add_of_le h.size_le
  have hnew : ((List.range k).map (d.listeners.size + ·)).flatMap d.accepted = [] := by
    refine List.flatMap_eq_nil_iff.2 fun l hl => ?_
    obtain ⟨i, -, rfl⟩ := List.mem_map.1 hl
    exact hsound.accepted_of_size_le (Nat.le_add_right ..)
  unfold sentTo
  rw [funext h.accepted, hk, List.range_add, List.flatMap_append, hnew, List.append_nil]

theorem Silent.addressed {d d' : Dispatcher} (h : d.Silent d') (hsound : d.Sound) (hsound' : d'.Sound)
    (haddressed : d.Addressed) : d'.Addressed := by
  intro l
  rw [h.accepted]
  by_cases hl : l < d.listeners.size
  · obtain ⟨id, hid, hattached⟩ := haddressed l
    exact ⟨id, hid, fun id' hid' => hattached id' (h.attached id' l hl hid')⟩
  · rw [hsound.accepted_of_size_le (Nat.not_lt.1 hl)]
    by_cases hid : ∃ id, d'.attached.get? id = some l
    · obtain ⟨id, hid⟩ := hid
      exact ⟨id, nofun, fun id' hid' => hsound'.exclusive id' id l hid' hid⟩
    · exact ⟨0, nofun, fun id' hid' => absurd ⟨id', hid'⟩ hid⟩

theorem silent_modifyListener (d : Dispatcher) (l : ListenerId) {f : Listener → Listener}
    (hf : ∀ x, (f x).accepted = x.accepted) : d.Silent (d.modifyListener l f) :=
  ⟨(quiet_modifyListener d l hf).toKeeps, accepted_modifyListener d l hf⟩

theorem silent_stop (d : Dispatcher) : d.Silent d.stop := by
  refine ⟨(quiet_stop d).toKeeps, fun l => ?_⟩
  unfold accepted
  rw [listener?_stop, Option.map_map]
  rfl

theorem silent_forget (d : Dispatcher) (id : SubscriptionId) : d.Silent (d.forget id) :=
  ⟨(quiet_forget d id).toKeeps, accepted_release d id⟩

/-! ## A message -/

theorem push?_eq_some {d d' : Dispatcher} {id : SubscriptionId} {m : Message} (h : d.push? id m = some d') :
    ∃ l, d.attached.get? id = some l ∧ d.takes l = true ∧ d' = d.put l m := by
  rw [push?_eq] at h
  obtain ⟨l, hl, rfl⟩ := Option.map_eq_some_iff.1 h
  obtain ⟨hid, htakes⟩ := Option.filter_eq_some_iff.1 hl
  exact ⟨l, hid, htakes, rfl⟩

theorem accepted_put_of_ne (d : Dispatcher) {l l' : ListenerId} (h : l' ≠ l) (m : Message) :
    (d.put l m).accepted l' = d.accepted l' := by
  unfold accepted
  rw [listener?_put_of_ne d (Ne.symm h)]

/-- A message that is accepted counts once, for the subscription it is about. -/
theorem sentTo_put {d : Dispatcher} (hsound : d.Sound) {id : SubscriptionId} {l : ListenerId}
    (hid : d.attached.get? id = some l) (htakes : d.takes l = true) (m : Message) (k : SubscriptionId) :
    (d.put l m).sentTo k = d.sentTo k + if m.id = k then 1 else 0 := by
  have hl : l < d.listeners.size := hsound.known id l hid
  have hcount := countP_flatMap_range (accepted_put htakes m) (fun l' hl' => accepted_put_of_ne d hl' m)
    (·.id = k) d.listeners.size
  unfold sentTo
  rw [put, size_modifyListener, ← put, hcount]
  simp [hl]

theorem addressed_put {d : Dispatcher} (h : d.Addressed) {m : Message} {l : ListenerId}
    (hid : d.attached.get? m.id = some l) (htakes : d.takes l = true) : (d.put l m).Addressed := by
  intro l'
  obtain ⟨id, hall, hattached⟩ := h l'
  refine ⟨id, ?_, hattached⟩
  by_cases hl : l' = l
  · subst hl
    rw [accepted_put htakes]
    intro m' hm'
    rcases List.mem_append.1 hm' with hm' | hm'
    · exact hall m' hm'
    · rw [List.mem_singleton.1 hm', hattached _ hid]
  · rw [accepted_put_of_ne d hl]
    exact hall

end Dispatcher

end YangSubscriptions
