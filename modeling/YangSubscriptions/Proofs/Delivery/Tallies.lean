import YangSubscriptions.Proofs.Delivery.Sent

/-!
# Tallies

The tally of a subscription counts the messages that its listeners accepted and the notifications that its
filter rejected. Which notifications are offered to a subscription in a move, and which of them it rejects, is
said without the tallies (`offered`, `rejected`); that the tallies agree with it is an invariant of single
offers and deliveries (`Balanced`), and with them of every move that keeps the tallies where it has no
business with them (`Balanced.move`).
-/

namespace YangSubscriptions

theorem Registry.tally_countSent (r : Registry) (id k : SubscriptionId) :
    (r.countSent id).tally k = if id = k then { r.tally k with sent := (r.tally k).sent + 1 } else r.tally k := by
  unfold countSent
  rw [tally, Table.get?_insert]
  split
  · rename_i hid
    subst hid
    rfl
  · rfl

theorem Registry.tally_countExcluded (r : Registry) (id k : SubscriptionId) :
    (r.countExcluded id).tally k =
      if id = k then { r.tally k with excluded := (r.tally k).excluded + 1 } else r.tally k := by
  unfold countExcluded
  rw [tally, Table.get?_insert]
  split
  · rename_i hid
    subst hid
    rfl
  · rfl

/-- Does every record stand under its id? -/
def Registry.Keyed (r : Registry) : Prop := ∀ id s, r.lookup id = some s → s.id = id

namespace Service

/-! ## What is offered and rejected -/

/-- Does the filter of an active subscription on the stream reject the notification? -/
def rejects (s : Service) (id : SubscriptionId) (stream : String) (n : Notification) : Bool :=
  (s.registry.lookup id).any fun sub =>
    sub.stream = stream && sub.state = .active && (sub.resolved.apply n.body).isNone

theorem verdict_eq_excluded {s : Service} {id : SubscriptionId} {stream : String} {n : Notification} :
    s.verdict id stream n = .excluded ↔ s.rejects id stream n = true := by
  unfold verdict rejects
  cases s.registry.lookup id with
  | none => simp
  | some sub =>
    rw [Option.any_some]
    simp only
    unfold Subscription.verdict
    by_cases haffected : sub.stream ≠ stream ∨ sub.state ≠ .active
    · rw [if_pos haffected]
      rcases haffected with h | h <;> simp [h]
    · rw [if_neg haffected]
      obtain ⟨hstream, hactive⟩ := not_or.1 haffected
      rw [not_not] at hstream hactive
      cases sub.resolved.apply n.body with
      | none => simp [hstream, hactive]
      | some body => cases hencode : Message.encode sub.id sub.encoding n.time body s.schema <;> simp [hencode]

/-- A message that an offer brings is about the subscription. -/
theorem id_of_verdict {s : Service} (hkeyed : s.registry.Keyed) {id : SubscriptionId} {stream : String}
    {n : Notification} {m : Message} (h : s.verdict id stream n = .message m) :
    m.id = id ∧ ∃ sub, s.registry.lookup id = some sub := by
  unfold verdict at h
  cases hsub : s.registry.lookup id with
  | none =>
    rw [hsub] at h
    cases h
  | some sub =>
    rw [hsub] at h
    refine ⟨?_, sub, rfl⟩
    change sub.verdict s.schema stream n = .message m at h
    unfold Subscription.verdict at h
    split at h
    · cases h
    · split at h
      · cases h
      · split at h
        · rename_i hencode
          cases h
          rw [Message.id_of_encode hencode, hkeyed id sub hsub]
        · cases h

/-- What is offered to a subscription in a move while it has an open listener, each with the stream it is
offered on: what a feed yields, or what is replayed to a listener that is attached. -/
def offered (s : Service) (id : SubscriptionId) : Move → List (String × Notification)
  | .dispatch stream =>
    if s.dispatcher.hasOpenListener id then (s.router.queue stream).head?.toList.map fun n => (stream, n) else []
  | .attach id' _ replace =>
    if id' = id ∧ s.dispatcher.running = true ∧ (replace = true ∨ s.dispatcher.hasOpenListener id' = false) then
      s.toReplay id'
    else []
  | _ => []

/-- How many of them does the filter of the subscription reject? -/
def rejected (s : Service) (id : SubscriptionId) (m : Move) : Nat :=
  (s.offered id m).countP fun (stream, n) => s.rejects id stream n

def rejectedAlong (id : SubscriptionId) : Service → List Move → Nat
  | _, [] => 0
  | s, m :: ms => s.rejected id m + rejectedAlong id (s.move m) ms

/-- Is a move fair to the tallies? Whatever else changes they stay as they are, and every record stands under
its id whenever notifications are offered. -/
def Fair (s : Service) : Move → Prop
  | .alter t => ∀ id, t.registry.tally id = s.registry.tally id
  | .dispatch _ | .attach _ _ _ => s.registry.Keyed
  | _ => True

def FairAlong : Service → List Move → Prop
  | _, [] => True
  | s, m :: ms => s.Fair m ∧ FairAlong (s.move m) ms

/-! ## The invariant -/

variable {P : SubscriptionId → Prop} {r : SubscriptionId → Nat}

/-- Does every tally count what was sent and what was rejected, and nothing for ids that do not meet the
condition? -/
structure Balanced (P : SubscriptionId → Prop) (r : SubscriptionId → Nat) (s : Service) : Prop where
  sound : s.dispatcher.Sound
  addressed : s.dispatcher.Addressed
  tally : ∀ id, s.registry.tally id = ⟨.ofNat (s.dispatcher.sentTo id), .ofNat (r id)⟩
  unused : ∀ id, ¬ P id → s.registry.tally id = ⟨0, 0⟩

namespace Balanced

theorem of_silent {s t : Service} (h : Balanced P r s)
    (htally : ∀ id, t.registry.tally id = s.registry.tally id) (hsilent : s.dispatcher.Silent t.dispatcher)
    (hsound : t.dispatcher.Sound) : Balanced P r t where
  sound := hsound
  addressed := hsilent.addressed h.sound hsound h.addressed
  tally id := by rw [htally, h.tally, hsilent.sentTo_eq h.sound]
  unused id hid := by rw [htally, h.unused id hid]

theorem congr {s : Service} (h : Balanced P r s) {r' : SubscriptionId → Nat} (hr : ∀ id, r' id = r id) :
    Balanced P r' s := by
  rwa [funext hr]

theorem mono {s : Service} (h : Balanced P r s) {Q : SubscriptionId → Prop} (hQ : ∀ id, P id → Q id) :
    Balanced Q r s :=
  ⟨h.sound, h.addressed, h.tally, fun id hid => h.unused id fun hp => hid (hQ id hp)⟩

/-! ## Messages and state changes -/

theorem give {s : Service} (h : Balanced P r s) {m : Message} (hid : P m.id) : Balanced P r (s.give m.id m).2 := by
  unfold Service.give
  cases hpush : s.dispatcher.push? m.id m with
  | none => exact h
  | some d =>
    obtain ⟨l, hl, htakes, rfl⟩ := Dispatcher.push?_eq_some hpush
    refine ⟨h.sound.put l m, Dispatcher.addressed_put h.addressed hl htakes, fun k => ?_, fun k hk => ?_⟩
    · show (s.registry.countSent m.id).tally k = ⟨.ofNat ((s.dispatcher.put l m).sentTo k), _⟩
      rw [Registry.tally_countSent, Dispatcher.sentTo_put h.sound hl htakes, h.tally]
      split
      · rw [UInt64.ofNat_add]
        rfl
      · rfl
    · show (s.registry.countSent m.id).tally k = _
      have hne : m.id ≠ k := fun he => hk (he ▸ hid)
      rw [Registry.tally_countSent, if_neg hne, h.unused k hk]

theorem deliver {s : Service} (h : Balanced P r s) {change : StateChange} (hid : P change.id) (encoding : Encoding) :
    Balanced P r (s.deliver change encoding).2 := by
  have hforget : ∀ t : Service, Balanced P r t →
      Balanced P r (if change.isTerminal then { t with dispatcher := t.dispatcher.forget change.id } else t) := by
    intro t ht
    split
    · exact ht.of_silent (fun _ => rfl) (Dispatcher.silent_forget _ _) (ht.sound.forget change.id)
    · exact ht
  unfold Service.deliver
  split
  · simp only
    cases hencode : Message.encode change.id encoding s.now change.toNode s.schema with
    | error e => exact hforget s h
    | ok m =>
      have hm : m.id = change.id := Message.id_of_encode hencode
      rw [← hm] at hid ⊢
      have hgiven := hforget _ (h.give hid)
      rw [hm] at hgiven ⊢
      exact hgiven
  · exact h

theorem emit {s : Service} (h : Balanced P r s) (sub : Subscription) {change : StateChange} (hid : P change.id) :
    Balanced P r (s.emit sub change) := by
  have ht : Balanced P r { s with journal := s.journal ++ [change] } :=
    h.of_silent (fun _ => rfl) (.refl _) h.sound
  rw [emit_eq]
  split
  · exact ht.deliver hid sub.encoding
  · exact ht

theorem detach {s : Service} (h : Balanced P r s) (id : SubscriptionId) : Balanced P r (s.detach id).2 := by
  unfold Service.detach
  split
  · exact h.of_silent (fun _ => rfl) (Dispatcher.silent_forget _ id) (h.sound.forget id)
  · exact h

/-! ## Offers -/

/-- An offer counts a message or a rejection, of its own id. -/
theorem offer {s : Service} (h : Balanced P r s) (hkeyed : s.registry.Keyed)
    (hregistered : Registered P s) (id : SubscriptionId) (stream : String)
    (n : Notification) :
    Balanced P (fun k => r k + if id = k ∧ s.rejects k stream n = true then 1 else 0) (s.offer id stream n) := by
  have hnone : s.verdict id stream n ≠ .excluded →
      ∀ k, (r k + if id = k ∧ s.rejects k stream n = true then 1 else 0) = r k := by
    intro hv k
    rw [if_neg]
    · rfl
    · rintro ⟨rfl, hrejects⟩
      exact hv (verdict_eq_excluded.2 hrejects)
  unfold Service.offer
  cases hv : s.verdict id stream n with
  | unaffected => exact h.congr (hnone (by rw [hv]; nofun))
  | unencodable => exact h.congr (hnone (by rw [hv]; nofun))
  | message m =>
    obtain ⟨hm, sub, hsub⟩ := id_of_verdict hkeyed hv
    have hid : P m.id := hm ▸ (hregistered id sub hsub).1
    have hgiven := h.give hid
    rw [hm] at hgiven
    exact hgiven.congr (hnone (by rw [hv]; nofun))
  | excluded =>
    have hrejects := verdict_eq_excluded.1 hv
    have hid : P id := by
      unfold rejects at hrejects
      cases hsub : s.registry.lookup id with
      | none =>
        rw [hsub] at hrejects
        cases hrejects
      | some sub => exact (hregistered id sub hsub).1
    refine ⟨h.sound, h.addressed, fun k => ?_, fun k hk => ?_⟩
    · show (s.registry.countExcluded id).tally k = _
      rw [Registry.tally_countExcluded, h.tally]
      by_cases hk : id = k
      · subst hk
        rw [if_pos rfl, if_pos ⟨rfl, hrejects⟩, UInt64.ofNat_add]
        rfl
      · rw [if_neg hk, if_neg fun hboth => hk hboth.1]
        rfl
    · show (s.registry.countExcluded id).tally k = _
      have hne : id ≠ k := fun he => hk (he ▸ hid)
      rw [Registry.tally_countExcluded, if_neg hne, h.unused k hk]

/-- Offers do not change what is rejected, so that a round of them counts what the state it starts from rejects. -/
theorem foldl_offer {α : Type} (f : α → SubscriptionId × String × Notification) (xs : List α) {s : Service}
    (h : Balanced P r s) (hkeyed : s.registry.Keyed)
    (hregistered : Registered P s) :
    Balanced P (fun k => r k + xs.countP fun x => (f x).1 = k ∧ s.rejects k (f x).2.1 (f x).2.2 = true)
      (xs.foldl (fun s x => s.offer (f x).1 (f x).2.1 (f x).2.2) s) := by
  induction xs generalizing s r with
  | nil => exact h
  | cons x xs ih =>
    let t := s.offer (f x).1 (f x).2.1 (f x).2.2
    have hlookup : ∀ id, t.registry.lookup id = s.registry.lookup id := by
      intro id
      have hbare : t.bare = s.bare := bare_offer ..
      have hlookup := congrArg (fun u : Service => u.registry.lookup id) hbare
      exact hlookup
    have hrejects : ∀ k stream n, t.rejects k stream n = s.rejects k stream n := by
      intro k stream n
      unfold rejects
      rw [hlookup]
    have hrest := ih (h.offer hkeyed hregistered (f x).1 (f x).2.1 (f x).2.2)
      (fun id sub hsub => hkeyed id sub (by rw [← hlookup]; exact hsub))
      (fun id sub hsub => hregistered id sub (by rw [← hlookup]; exact hsub))
    refine hrest.congr fun k => ?_
    simp only [t, hrejects, List.countP_cons, decide_eq_true_eq]
    omega

end Balanced

/-! ## Moves -/

theorem mem_keys_dropClosed (d : Dispatcher) (id : SubscriptionId) :
    id ∈ d.dropClosed.attached.keys ↔ d.hasOpenListener id = true := by
  rw [Table.mem_keys_iff, Dispatcher.hasOpenListener, Dispatcher.attachedTo?]
  constructor
  · intro h
    obtain ⟨l, hl⟩ := Option.isSome_iff_exists.1 h
    obtain ⟨hid, hopen⟩ := (Dispatcher.get?_attached_dropClosed ..).1 hl
    rw [hid]
    exact hopen
  · intro h
    cases hid : d.attached.get? id with
    | none =>
      rw [hid] at h
      cases h
    | some l =>
      rw [hid] at h
      rw [(Dispatcher.get?_attached_dropClosed ..).2 ⟨hid, h⟩]
      rfl

theorem rejected_dispatch {s : Service} {stream : String} {n : Notification}
    (hhead : (s.router.queue stream).head? = some n) (id : SubscriptionId) :
    s.rejected id (.dispatch stream) =
      if s.dispatcher.hasOpenListener id = true ∧ s.rejects id stream n = true then 1 else 0 := by
  simp only [rejected, offered, hhead]
  cases s.dispatcher.hasOpenListener id <;> cases hrejects : s.rejects id stream n <;> simp [hrejects]

/-- Among distinct ids one is met once at most. -/
theorem countP_of_nodup {ids : List SubscriptionId} (h : ids.Nodup) (id : SubscriptionId) (b : Bool) :
    ids.countP (fun k => k = id ∧ b = true) = if id ∈ ids ∧ b = true then 1 else 0 := by
  cases b with
  | false => simp
  | true =>
    have hcount : ids.countP (fun k => k = id ∧ true = true) = ids.count id :=
      List.countP_congr fun k _ => by simp
    rw [hcount, h.count]
    simp

namespace Balanced

/-- A dispatched event counts for every open listener whose subscription rejects it. -/
theorem dispatch {s : Service} (h : Balanced P r s) (hkeyed : s.registry.Keyed)
    (hregistered : Registered P s) (stream : String) :
    Balanced P (fun id => r id + s.rejected id (.dispatch stream)) (s.dispatch stream) := by
  rw [dispatch_eq]
  cases hhead : (s.router.queue stream).head? with
  | none =>
    exact h.congr fun id => by simp [rejected, offered, hhead]
  | some n =>
    have hdropped : s.dispatcher.Silent s.dispatcher.dropClosed :=
      ⟨⟨Nat.le_refl _, fun id l _ hid => ((Dispatcher.get?_attached_dropClosed ..).1 hid).1⟩, fun _ => rfl⟩
    have hrecorded : Balanced P r (s.recorded stream n) := h.of_silent (fun _ => rfl) hdropped h.sound.dropClosed
    refine (hrecorded.foldl_offer (fun id => (id, stream, n)) _ hkeyed hregistered).congr fun id => ?_
    have hrejects : (s.recorded stream n).rejects id stream n = s.rejects id stream n := rfl
    simp only [hrejects, countP_of_nodup (Table.keys_nodup _), mem_keys_dropClosed]
    rw [rejected_dispatch hhead]

theorem replay {s : Service} (h : Balanced P r s) (hkeyed : s.registry.Keyed)
    (hregistered : Registered P s) (id : SubscriptionId) :
    Balanced P (fun k => r k + if id = k then (s.toReplay id).countP fun (stream, n) => s.rejects id stream n else 0)
      (s.replay id) := by
  rcases s.replay_cases id with ⟨hnothing, he⟩ | ⟨sub, events, hsub, hevents, he⟩
  · rw [he, hnothing]
    exact h.congr fun k => by rw [List.countP_nil, ite_self, Nat.add_zero]
  · rw [he, hevents]
    let t : Service := { s with dispatcher := { s.dispatcher with replayed := s.dispatcher.replayed.insert id () } }
    have ht : Balanced P r t :=
      h.of_silent (fun _ => rfl) ⟨⟨Nat.le_refl _, fun _ _ _ hl => hl⟩, fun _ => rfl⟩
        (h.sound.of_attached rfl (fun _ _ hl => hl) rfl)
    have hid : P (StateChange.replayCompleted id).id := (hregistered id sub hsub).1
    have hoffered := ht.foldl_offer (fun n => (id, sub.stream, n)) events hkeyed hregistered
    refine (hoffered.deliver hid sub.encoding).congr fun k => ?_
    have hrejects : ∀ n, t.rejects k sub.stream n = s.rejects k sub.stream n := fun _ => rfl
    rw [List.countP_map]
    by_cases hk : id = k
    · subst hk
      simp [hrejects, Function.comp_def]
    · simp [hk]

theorem attach {s : Service} (h : Balanced P r s) (hkeyed : s.registry.Keyed)
    (hregistered : Registered P s) (id : SubscriptionId) (capacity : Nat)
    (replace : Bool) :
    Balanced P (fun k => r k + s.rejected k (.attach id capacity replace)) (s.attach id capacity replace).2.2 := by
  rw [attach_eq_ite h.sound]
  split
  · rename_i hattaches
    have hsilent : s.dispatcher.Silent (s.dispatcher.seat id capacity) :=
      ⟨(h.sound.quiet_seat id capacity).toKeeps, h.sound.accepted_seat id capacity⟩
    let t : Service := { s with dispatcher := s.dispatcher.seat id capacity }
    have ht : Balanced P r t := h.of_silent (fun _ => rfl) hsilent (h.sound.seat id capacity hattaches.1)
    refine (ht.replay hkeyed hregistered id).congr fun k => ?_
    have hpending : t.toReplay id = s.toReplay id := by
      unfold toReplay
      simp only [t, Dispatcher.replayed_seat]
    rw [hpending]
    by_cases hk : id = k
    · subst hk
      simp only [rejected, offered, hattaches, and_self, if_true]
      rfl
    · simp only [rejected, offered, hk, false_and, if_false, List.countP_nil]
  · rename_i hrefused
    have hsilent : s.dispatcher.Silent (s.dispatcher.turnAway capacity) :=
      ⟨(h.sound.quiet_turnAway capacity).toKeeps, h.sound.accepted_turnAway capacity⟩
    refine (h.of_silent (t := { s with dispatcher := s.dispatcher.turnAway capacity }) (fun _ => rfl) hsilent
      (h.sound.turnAway capacity)).congr fun k => ?_
    simp only [rejected, offered, hrefused, and_false, if_false, List.countP_nil, Nat.add_zero]

/-! ### All moves -/

theorem move {s : Service} (h : Balanced P r s) {m : Move} (hfair : s.Fair m)
    (hregistered : Registered P s)
    (hdelivered : ∀ change encoding, m = .deliver change encoding → P change.id) :
    Balanced P (fun id => r id + s.rejected id m) (s.move m) := by
  cases m with
  | dispatch stream => exact h.dispatch hfair hregistered stream
  | attach id capacity replace => exact h.attach hfair hregistered id capacity replace
  | deliver change encoding => exact h.deliver (hdelivered change encoding rfl) encoding
  | alter t => exact h.of_silent hfair (.refl _) h.sound
  | detach id => exact h.detach id
  | publish n => exact h.of_silent (fun _ => rfl) (.refl _) h.sound
  | receive l max =>
    show Balanced P r (s.receive l max).2
    unfold receive
    split
    · have hsilent := s.dispatcher.silent_modifyListener l (f := fun x => (x.take max).2) fun _ => rfl
      exact h.of_silent (fun _ => rfl) hsilent (h.sound.modifyListener l _)
    · exact h
  | hangUp l =>
    have hsilent := s.dispatcher.silent_modifyListener l (f := fun x => { x with receiverOpen := false }) fun _ => rfl
    exact h.of_silent (fun _ => rfl) hsilent (h.sound.modifyListener l _)
  | stop =>
    rw [stop_eq]
    split
    · exact h.of_silent (fun _ => rfl) s.dispatcher.silent_stop h.sound.stop
    · exact h

/-- After fair moves the tallies still count. -/
theorem moves {s : Service} (h : Balanced (fun _ => True) r s) {ms : List Move} (hfair : s.FairAlong ms) :
    Balanced (fun _ => True) (fun id => r id + rejectedAlong id s ms) (s.moves ms) := by
  induction ms generalizing s r with
  | nil => exact h
  | cons m ms ih =>
    have hmoved := h.move hfair.1 (fun _ _ _ => ⟨trivial, trivial⟩) (fun _ _ _ => trivial)
    exact (ih hmoved hfair.2).congr fun id => (Nat.add_assoc ..).symm

end Balanced

/-! ## What is not counted -/

/-- Why a notification from a feed leaves the tally of a subscription alone. -/
inductive Uncounted (s : Service) (id : SubscriptionId) (stream : String) (n : Notification) : Prop where
  | inactive (h : ∀ sub, s.registry.lookup id = some sub → sub.state ≠ .active)
  | unattached (h : s.dispatcher.hasOpenListener id = false)
  | full {x : Listener} {m : Message} (attached : s.dispatcher.attachedTo? id = some x) (full : x.isFull = true)
    (passes : s.verdict id stream n = .message m)
  | unencodable (h : s.verdict id stream n = .unencodable)

/-- Does the offer of a notification to a subscription come to nothing? -/
structure Idle (s : Service) (id : SubscriptionId) (stream : String) (n : Notification) : Prop where
  passes : s.verdict id stream n ≠ .excluded
  unheard : ∀ m, s.verdict id stream n = .message m → s.dispatcher.push? id m = none

theorem Idle.offer_eq_self {s : Service} {id : SubscriptionId} {stream : String} {n : Notification}
    (h : s.Idle id stream n) : s.offer id stream n = s := by
  unfold offer
  cases hv : s.verdict id stream n with
  | excluded => exact absurd hv h.passes
  | message m =>
    simp only
    rw [give, h.unheard m hv]
  | _ => rfl

theorem tally_offer_of_ne (s : Service) {id id' : SubscriptionId} (hne : id' ≠ id) (stream : String)
    (n : Notification) :
    (s.offer id' stream n).registry.tally id = s.registry.tally id := by
  unfold offer
  cases s.verdict id' stream n with
  | excluded => exact (Registry.tally_countExcluded ..).trans (if_neg hne)
  | message m =>
    simp only
    unfold give
    cases s.dispatcher.push? id' m with
    | none => rfl
    | some d => exact (Registry.tally_countSent ..).trans (if_neg hne)
  | _ => rfl

/-- An offer to one subscription makes no difference to an offer to another. -/
theorem Idle.offer {s : Service} (hsound : s.dispatcher.Sound) {id id' : SubscriptionId} {stream : String}
    {n : Notification} (h : s.Idle id stream n) (hne : id' ≠ id) : (s.offer id' stream n).Idle id stream n := by
  have hverdict : (s.offer id' stream n).verdict id stream n = s.verdict id stream n := by
    rw [← verdict_bare, bare_offer, verdict_bare]
  refine ⟨by rw [hverdict]; exact h.passes, fun m hm => ?_⟩
  rw [hverdict] at hm
  have hnone := h.unheard m hm
  rw [Dispatcher.push?_eq, Option.map_eq_none_iff] at hnone ⊢
  rw [dispatcher_offer, Dispatcher.attached_heed]
  cases hid : s.dispatcher.attached.get? id with
  | none => rfl
  | some l =>
    have hother : s.dispatcher.attached.get? id' ≠ some l := fun hid' => hne (hsound.exclusive id' id l hid' hid)
    rw [hid] at hnone
    rw [Option.filter_some] at hnone ⊢
    unfold Dispatcher.takes at hnone ⊢
    rwa [Dispatcher.listener?_heed_of_ne hother]

theorem tally_foldl_offer (ids : List SubscriptionId) {s : Service} (hsound : s.dispatcher.Sound) {id : SubscriptionId}
    {stream : String} {n : Notification} (h : id ∈ ids → s.Idle id stream n) :
    (ids.foldl (fun s id => s.offer id stream n) s).registry.tally id = s.registry.tally id := by
  induction ids generalizing s with
  | nil => rfl
  | cons id' ids ih =>
    rw [List.foldl_cons]
    by_cases hid : id' = id
    · subst hid
      have hidle := h List.mem_cons_self
      rw [hidle.offer_eq_self, ih hsound fun _ => hidle]
    · have hsound' : (s.offer id' stream n).dispatcher.Sound := by
        rw [dispatcher_offer]
        exact hsound.heed id' _
      rw [ih hsound' fun hmem => (h (List.mem_cons_of_mem _ hmem)).offer hsound hid, tally_offer_of_ne s hid]

/-- A notification that a feed yields leaves the tally of a subscription alone that is not active, or has no
listener or a full one, or for which it cannot be encoded. -/
theorem Uncounted.tally_dispatch {s : Service} (hsound : s.dispatcher.Sound) {id : SubscriptionId} {stream : String}
    {n : Notification} (hhead : (s.router.queue stream).head? = some n) (h : s.Uncounted id stream n) :
    (s.dispatch stream).registry.tally id = s.registry.tally id := by
  have hidle : id ∈ s.dispatcher.dropClosed.attached.keys → (s.recorded stream n).Idle id stream n := by
    intro hmem
    have hverdict : (s.recorded stream n).verdict id stream n = s.verdict id stream n := rfl
    cases h with
    | inactive h =>
      have hunaffected : s.verdict id stream n = .unaffected := by
        unfold verdict
        cases hsub : s.registry.lookup id with
        | none => rfl
        | some sub => exact if_pos (.inr (h sub hsub))
      constructor <;> simp [hverdict, hunaffected]
    | unattached h =>
      rw [mem_keys_dropClosed, h] at hmem
      cases hmem
    | full attached full passes =>
      refine ⟨by simp [hverdict, passes], fun m _ => ?_⟩
      obtain ⟨l, hl, hx⟩ := Option.bind_eq_some_iff.1 attached
      show s.dispatcher.dropClosed.push? id m = none
      rw [Dispatcher.push?_eq, Option.map_eq_none_iff, Option.filter_eq_none_iff]
      intro l' hl'
      obtain rfl : l = l' := Option.some.inj (hl.symm.trans ((Dispatcher.get?_attached_dropClosed ..).1 hl').1)
      have hlistener : s.dispatcher.dropClosed.listener? l = some _ := hx
      simp [Dispatcher.takes, hlistener, Listener.takes, full]
    | unencodable h => constructor <;> simp [hverdict, h]
  rw [dispatch_eq, hhead]
  exact tally_foldl_offer _ hsound.dropClosed hidle

end Service

end YangSubscriptions
