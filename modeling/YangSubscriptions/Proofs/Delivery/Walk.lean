import YangSubscriptions.Proofs.Delivery.Desk
import YangSubscriptions.Proofs.Delivery.Tallies
import Mathlib.Data.List.Perm.Basic

/-!
# The order of a walk

A notification is offered to one attached subscription after another. Each offer works on the tally and the
listener of its own subscription, so offers to two of them commute (`offer_comm`), and all of them come to the same
in any order (`foldl_offer_of_perm`).
-/

namespace YangSubscriptions

namespace Registry

/-- A registry with another tally of one subscription. -/
def retally (r : Registry) (k : SubscriptionId) (f : Tally → Tally) : Registry :=
  { r with tallies := r.tallies.insert k (f (r.tally k)) }

theorem countSent_eq (r : Registry) (k : SubscriptionId) :
    r.countSent k = r.retally k fun t => { t with sent := t.sent + 1 } := rfl

theorem countExcluded_eq (r : Registry) (k : SubscriptionId) :
    r.countExcluded k = r.retally k fun t => { t with excluded := t.excluded + 1 } := rfl

theorem retally_comm {j k : SubscriptionId} (h : j ≠ k) (r : Registry) (f g : Tally → Tally) :
    (r.retally j f).retally k g = (r.retally k g).retally j f := by
  have hother : ∀ (i i' : SubscriptionId) (f : Tally → Tally), i ≠ i' → (r.retally i f).tally i' = r.tally i' := by
    intro i i' f hne
    unfold retally
    rw [tally, Table.get?_insert, if_neg hne, tally]
  have htallies : ((r.retally j f).retally k g).tallies = ((r.retally k g).retally j f).tallies := by
    refine Table.ext fun i => ?_
    show (((r.retally j f).tallies.insert k (g ((r.retally j f).tally k))).get? i) =
      ((r.retally k g).tallies.insert j (f ((r.retally k g).tally j))).get? i
    rw [hother j k f h, hother k j g h.symm]
    simp only [retally, Table.get?_insert]
    by_cases hk : k = i
    · subst hk
      simp [h]
    · simp [hk]
  show { r with tallies := ((r.retally j f).retally k g).tallies } =
    { r with tallies := ((r.retally k g).retally j f).tallies }
  rw [htallies]

end Registry

namespace Dispatcher

variable {d : Dispatcher} {j k : SubscriptionId}

theorem modifyListener_comm {l l' : ListenerId} (h : l ≠ l') (d : Dispatcher) (f g : Listener → Listener) :
    (d.modifyListener l f).modifyListener l' g = (d.modifyListener l' g).modifyListener l f := by
  have hlisteners : (d.listeners.modify l f).modify l' g = (d.listeners.modify l' g).modify l f := by
    refine Table.ext fun i => ?_
    simp only [Table.get?_modify]
    by_cases hl : l = i
    · subst hl
      simp [Ne.symm h]
    · simp [hl]
  exact congrArg (fun listeners => { d with listeners }) hlisteners

/-- A message goes to the attached listener, which accepts it or not. -/
theorem give_eq_modifyListener (d : Dispatcher) (k : SubscriptionId) (m : Message) :
    d.give k m = match d.attached.get? k with
      | some l => d.modifyListener l (·.given m)
      | none => d := by
  cases hk : d.attached.get? k with
  | none => exact give_of_unattached hk m
  | some l =>
    have hlisteners : (d.give k m).listeners = d.listeners.modify l (·.given m) := by
      refine Table.ext fun i => ?_
      rw [Table.get?_modify]
      split
      · rename_i hl
        exact listener?_give_of_attached (hl ▸ hk) m
      · rename_i hl
        exact listener?_give_of_ne (fun hattached => hl (Option.some.inj (hk.symm.trans hattached))) m
    have hrest : d.give k m = { d with listeners := (d.give k m).listeners } := by
      rcases d.give_cases k m with he | ⟨l', -, he⟩ <;> rw [he]
      rfl
    rw [hrest, hlisteners]
    rfl

theorem Sound.give_comm (h : d.Sound) (hne : j ≠ k) (m m' : Message) :
    (d.give j m).give k m' = (d.give k m').give j m := by
  rw [give_eq_modifyListener (d.give j m), give_eq_modifyListener (d.give k m'), attached_give, attached_give,
    give_eq_modifyListener d j, give_eq_modifyListener d k]
  cases hj : d.attached.get? j with
  | none => rfl
  | some l =>
    cases hk : d.attached.get? k with
    | none => rfl
    | some l' =>
      have hl : l ≠ l' := fun he => hne (h.exclusive j k l hj (he ▸ hk))
      exact modifyListener_comm hl d _ _

/-- Whether a message is accepted does not depend on what others are given. -/
theorem Sound.isSome_push?_give (h : d.Sound) (hne : j ≠ k) (m m' : Message) :
    ((d.give j m).push? k m').isSome = (d.push? k m').isSome := by
  rw [push?_eq, push?_eq, Option.isSome_map, Option.isSome_map, attached_give]
  cases hk : d.attached.get? k with
  | none => rfl
  | some l =>
    have hl : d.attached.get? j ≠ some l := fun hj => hne (h.exclusive j k l hj hk)
    have htakes : (d.give j m).takes l = d.takes l := by
      unfold takes
      rw [listener?_give_of_ne hl]
    cases hd : d.takes l <;> simp [Option.filter, htakes, hd]

end Dispatcher

namespace Service

variable {s : Service} {j k : SubscriptionId}

theorem give_eq (s : Service) (k : SubscriptionId) (m : Message) :
    (s.give k m).2 =
      { s with
        dispatcher := s.dispatcher.give k m
        registry := if (s.dispatcher.push? k m).isSome then s.registry.countSent k else s.registry } := by
  unfold give Dispatcher.give
  cases s.dispatcher.push? k m <;> rfl

/-- What becomes of an offer once the verdict is there. -/
def heed (s : Service) (k : SubscriptionId) : Verdict → Service
  | .unaffected | .unencodable => s
  | .excluded => { s with registry := s.registry.countExcluded k }
  | .message m => (s.give k m).2

theorem offer_eq (s : Service) (k : SubscriptionId) (stream : String) (n : Notification) :
    s.offer k stream n = s.heed k (s.verdict k stream n) := by
  unfold offer
  cases s.verdict k stream n <;> rfl

theorem heed_comm (h : s.dispatcher.Sound) (hne : j ≠ k) (v w : Verdict) :
    (s.heed j v).heed k w = (s.heed k w).heed j v := by
  cases v with
  | unaffected | unencodable => rfl
  | excluded =>
    cases w with
    | unaffected | unencodable => rfl
    | excluded =>
      simp only [heed, Registry.countExcluded_eq, Registry.retally_comm hne]
    | message m =>
      simp only [heed, give_eq, Registry.countExcluded_eq, Registry.countSent_eq]
      split
      · rw [Registry.retally_comm hne]
      · rfl
  | message m =>
    cases w with
    | unaffected | unencodable => rfl
    | excluded =>
      simp only [heed, give_eq, Registry.countExcluded_eq, Registry.countSent_eq]
      split
      · rw [Registry.retally_comm hne]
      · rfl
    | message m' =>
      simp only [heed, give_eq, h.give_comm hne, h.isSome_push?_give hne, h.isSome_push?_give hne.symm,
        Registry.countSent_eq]
      split <;> split
      · rw [Registry.retally_comm hne]
      · rfl
      · rfl
      · rfl

theorem offer_comm (h : s.dispatcher.Sound) (hne : j ≠ k) (stream : String) (n : Notification) :
    (s.offer j stream n).offer k stream n = (s.offer k stream n).offer j stream n := by
  have hverdict : ∀ i i', (s.offer i stream n).verdict i' stream n = s.verdict i' stream n := fun i i' => by
    rw [← verdict_bare, bare_offer, verdict_bare]
  rw [offer_eq (s.offer j stream n), offer_eq (s.offer k stream n), hverdict, hverdict, offer_eq s j, offer_eq s k,
    heed_comm h hne]

/-- The walk may come to the attached subscriptions in any order. -/
theorem foldl_offer_of_perm (h : s.dispatcher.Sound) {ids ids' : List SubscriptionId} (hperm : ids.Perm ids')
    (hnodup : ids.Nodup) (stream : String) (n : Notification) :
    ids.foldl (fun s id => s.offer id stream n) s = ids'.foldl (fun s id => s.offer id stream n) s := by
  -- two offers commute while the dispatcher is sound, so `List.Perm.foldl_eq'` does not apply
  induction hperm generalizing s with
  | nil => rfl
  | cons k _ ih =>
    refine ih ?_ (List.nodup_cons.1 hnodup).2
    rw [dispatcher_offer]
    exact h.heed k _
  | swap j k ids =>
    have hne : k ≠ j := fun he => (List.nodup_cons.1 hnodup).1 (he ▸ List.mem_cons_self)
    rw [List.foldl_cons, List.foldl_cons, List.foldl_cons, List.foldl_cons, offer_comm h hne]
  | trans hperm _ ih ih' => exact (ih h hnodup).trans (ih' h (hperm.nodup_iff.1 hnodup))

end Service

end YangSubscriptions
