import YangSubscriptions.Proofs.Table
import YangSubscriptions.Subscription.Registry

/-!
# Laws of the registry

What every operation does to look-ups, and the closed forms of the two composite ones: a launch puts
one active record in (`launch_eq`), a retirement takes one record out (`retire_eq`). A record that is
taken out and put back leaves the registry as if it had been overwritten (`enter_leave`), provided
the index of its session held it.
-/

namespace YangSubscriptions

namespace Subscription

/-- A new subscription that is active at once. -/
def launched (id : SubscriptionId) (request : SubscriptionRequest) : Subscription :=
  { new id request with state := .active }

/-- The record as it is when the subscription ends. -/
def ended (s : Subscription) : Subscription := { s with state := .ended, suspension := none }

/-- The record as it is when the subscription is resumed. -/
def resumed (s : Subscription) : Subscription := { s with state := .active, suspension := none }

/-- The record without the reason for a suspension. -/
def withoutReason (s : Subscription) : Subscription := { s with suspension := none }

/-- Between operations a record is active, or suspended with or without a reason. -/
structure Sound (s : Subscription) : Prop where
  live : s.state.isLive = true
  reason : s.suspension.isSome → s.state = .suspended

theorem sound_launched (id : SubscriptionId) (request : SubscriptionRequest) : (launched id request).Sound :=
  ⟨rfl, fun h => by cases h⟩

/-- The record in the datastore tells no more than the terms. -/
theorem toJson_eq_of_terms {s t : Subscription} (h : s.terms = t.terms) : s.toJson = t.toJson := by
  simp only [terms, Terms.mk.injEq] at h
  simp only [toJson, h]

theorem id_eq_of_terms {s t : Subscription} (h : s.terms = t.terms) : s.id = t.id := congrArg Terms.id h

theorem stopTime_eq_of_terms {s t : Subscription} (h : s.terms = t.terms) : s.stopTime = t.stopTime :=
  congrArg Terms.stopTime h

end Subscription

theorem SubscriptionState.canMoveTo_ended {s : SubscriptionState} (h : s.isLive = true) :
    s.canMoveTo .ended = true := by
  cases s <;> first | rfl | cases h

namespace Registry

/-! ## Look-ups -/

/-- Entering a record changes the lookup of its own id only. -/
theorem lookup_enter (r : Registry) (s : Subscription) (id : SubscriptionId) :
    (r.enter s).lookup id = if s.id = id then some s else r.lookup id := Table.get?_insert ..

/-- Removing a record changes the lookup of its own id only. -/
theorem lookup_leave (r : Registry) (s : Subscription) (id : SubscriptionId) :
    (r.leave s).lookup id = if s.id = id then none else r.lookup id := Table.get?_erase ..

theorem lookup_update (r : Registry) (k : SubscriptionId) (f : Subscription → Subscription) (id : SubscriptionId) :
    (r.update k f).lookup id = if k = id then (r.lookup id).map f else r.lookup id := Table.get?_modify ..

/-! ## Composite operations -/

/-- A transition succeeds exactly on a registered id whose state may move to the target, and then sets state and
reason. -/
theorem transition_eq_ok {r r' : Registry} {id : SubscriptionId} {target previous : SubscriptionState}
    {reason : Option SuspensionReason} :
    r.transition id target reason = .ok (previous, r') ↔
      ∃ s, r.lookup id = some s ∧ s.state.canMoveTo target = true ∧ previous = s.state ∧
        r' = r.update id fun s => { s with state := target, suspension := reason } := by
  unfold transition
  constructor
  · intro h
    split at h
    · cases h
    · rename_i s hs
      split at h
      · rename_i hm
        cases h
        exact ⟨s, hs, hm, rfl, rfl⟩
      · cases h
  · rintro ⟨s, hs, hm, rfl, rfl⟩
    simp only [hs, hm, if_true]

theorem update_update (r : Registry) (id : SubscriptionId) (f g : Subscription → Subscription) :
    (r.update id f).update id g = r.update id fun s => g (f s) := by
  unfold update
  congr 1
  refine Table.ext fun k => ?_
  simp only [Table.get?_modify]
  split
  · rw [Option.map_map]
    rfl
  · rfl

/-- Two changes that agree on the record of an id, if there is one. -/
theorem update_congr {r : Registry} {id : SubscriptionId} {f g : Subscription → Subscription}
    (h : ∀ s, r.lookup id = some s → f s = g s) : r.update id f = r.update id g := by
  unfold update
  congr 1
  refine Table.ext fun k => ?_
  simp only [Table.get?_modify]
  split
  · rename_i hk
    subst hk
    exact Option.map_congr h
  · rfl

theorem update_eq_self {r : Registry} {id : SubscriptionId} {f : Subscription → Subscription}
    (h : ∀ s, r.lookup id = some s → f s = s) : r.update id f = r := by
  rw [update_congr (g := fun s => s) h]
  unfold update Table.modify
  rw [Table.map_eq_self fun k a => by split <;> rfl]

theorem launch_eq (r : Registry) (streams : Streams) (request : SubscriptionRequest) :
    r.launch streams request =
      if streams.contains request.stream then
        let s := Subscription.launched r.nextId request
        .ok (s, { r.enter s with nextId := r.nextId + 1, tallies := r.tallies.insert r.nextId ⟨0, 0⟩ })
      else .error (.unknownStream request.stream) := by
  unfold launch create
  by_cases hc : streams.contains request.stream = true
  · let s := Subscription.new r.nextId request
    let r₁ : Registry := { r.enter s with nextId := r.nextId + 1, tallies := r.tallies.insert r.nextId ⟨0, 0⟩ }
    have hs : r₁.subscriptions.get? s.id = some s := by
      show (r.subscriptions.insert s.id s).get? s.id = some s
      rw [Table.get?_insert, if_pos rfl]
    have hmove : r₁.moveTo s.id .active =
        .ok (.start,
          { r₁ with subscriptions := r.subscriptions.insert s.id (Subscription.launched r.nextId request) }) := by
      refine transition_eq_ok.2 ⟨s, hs, rfl, rfl, ?_⟩
      unfold update
      rw [Table.modify_eq_insert _ hs]
      show _ = { r₁ with subscriptions := (r.subscriptions.insert s.id s).insert s.id _ }
      rw [Table.insert_insert]
      rfl
    simp only [hc, if_true]
    show (r₁.moveTo s.id .active >>= fun p => _) = _
    rw [hmove]
    rfl
  · simp only [hc, Bool.false_eq_true, if_false]
    rfl

theorem retire_of_lookup_none {r : Registry} {id : SubscriptionId} (h : r.lookup id = none) :
    r.retire id = .error (.unknownSubscription id) := by
  simp only [retire, moveTo, transition, h]
  rfl

theorem erase_update (r : Registry) (id : SubscriptionId) (f : Subscription → Subscription) :
    (r.update id f).subscriptions.erase id = r.subscriptions.erase id := by
  refine Table.ext fun k => ?_
  simp only [update, Table.get?_erase, Table.get?_modify]
  split <;> rfl

/-- Moving to the end first changes only the record that is taken out. -/
theorem leave_update_ended (r : Registry) (s : Subscription) (f : Subscription → Subscription) :
    (r.update s.id f).leave s.ended = r.leave s := by
  unfold leave
  show Registry.mk _ ((r.update s.id f).subscriptions.erase s.id) _ _ = _
  rw [erase_update]
  rfl

theorem retire_eq {r : Registry} {id : SubscriptionId} {s : Subscription} (h : r.lookup id = some s) (hid : s.id = id) :
    r.retire id =
      if s.state.canMoveTo .ended then .ok (s.ended, s.state, r.leave s)
      else .error (.illegalTransition id s.state .ended) := by
  subst hid
  by_cases hm : s.state.canMoveTo .ended = true
  · have hmove : r.moveTo s.id .ended = .ok (s.state, r.update s.id Subscription.ended) :=
      transition_eq_ok.2 ⟨s, h, hm, rfl, rfl⟩
    have hdelete : (r.update s.id Subscription.ended).delete s.id = .ok (s.ended, r.leave s) := by
      unfold delete
      rw [lookup_update, if_pos rfl, h]
      show Except.ok (s.ended, (r.update s.id Subscription.ended).leave s.ended) = _
      rw [leave_update_ended]
    rw [if_pos hm]
    unfold retire
    rw [hmove]
    show ((r.update s.id Subscription.ended).delete s.id >>= fun p => _) = _
    rw [hdelete]
    rfl
  · have hm' : s.state.canMoveTo .ended = false := Bool.eq_false_iff.2 hm
    simp only [retire, moveTo, transition, h, hm']
    rfl

/-! ## Taking a record out and putting it back -/

/-- Does the index of its session hold the record? -/
def IsIndexed (r : Registry) (s : Subscription) : Prop :=
  ∃ owned, r.sessions.get? s.session.id = some owned ∧ owned.get? s.id = some ()

theorem isIndexed_enter (r : Registry) (s : Subscription) : (r.enter s).IsIndexed s := by
  refine ⟨((r.sessions.get? s.session.id).getD .empty).insert s.id (), ?_, ?_⟩
  · show (r.sessions.insert s.session.id _).get? s.session.id = _
    rw [Table.get?_insert, if_pos rfl]
  · rw [Table.get?_insert, if_pos rfl]

/-- The set of a session after a record left, whether or not the session keeps one. -/
theorem sessions_leave (r : Registry) (s : Subscription) :
    ((r.leave s).sessions.get? s.session.id).getD .empty =
      ((r.sessions.get? s.session.id).getD .empty).erase s.id := by
  unfold leave
  by_cases hsize : (((r.sessions.get? s.session.id).getD .empty).erase s.id).size = 0
  · simp only [hsize, if_true, Table.get?_erase, Option.getD_none]
    exact (Table.eq_empty_iff.2 (Table.size_eq_zero_iff.1 hsize)).symm
  · simp only [hsize, if_false, Table.get?_insert, if_true, Option.getD_some]

theorem sessions_leave_of_ne (r : Registry) (s : Subscription) {session : SessionId} (h : s.session.id ≠ session) :
    (r.leave s).sessions.get? session = r.sessions.get? session := by
  unfold leave
  simp only
  split
  · rw [Table.get?_erase, if_neg h]
  · rw [Table.get?_insert, if_neg h]

theorem IsIndexed.enter {r : Registry} {t : Subscription} (h : r.IsIndexed t) (s : Subscription) :
    (r.enter s).IsIndexed t := by
  obtain ⟨owned, howned, hid⟩ := h
  by_cases hs : s.session.id = t.session.id
  · refine ⟨owned.insert s.id (), ?_, ?_⟩
    · show (r.sessions.insert s.session.id _).get? t.session.id = _
      rw [Table.get?_insert, if_pos hs, hs, howned, Option.getD_some]
    · rw [Table.get?_insert]
      split
      · rfl
      · exact hid
  · refine ⟨owned, ?_, hid⟩
    show (r.sessions.insert s.session.id _).get? t.session.id = _
    rw [Table.get?_insert, if_neg hs, howned]

theorem IsIndexed.leave {r : Registry} {s t : Subscription} (h : r.IsIndexed t) (hne : s.id ≠ t.id) :
    (r.leave s).IsIndexed t := by
  obtain ⟨owned, howned, hid⟩ := h
  by_cases hs : s.session.id = t.session.id
  · have hleft : ((r.leave s).sessions.get? t.session.id).getD .empty = owned.erase s.id := by
      rw [← hs, sessions_leave, hs, howned, Option.getD_some]
    have hkept : (owned.erase s.id).get? t.id = some () := by
      rw [Table.get?_erase, if_neg hne, hid]
    cases hset : (r.leave s).sessions.get? t.session.id with
    | none =>
      rw [hset, Option.getD_none] at hleft
      rw [← hleft, Table.get?_empty] at hkept
      cases hkept
    | some left =>
      rw [hset, Option.getD_some] at hleft
      exact ⟨left, hset, hleft ▸ hkept⟩
  · exact ⟨owned, (sessions_leave_of_ne r s hs).trans howned, hid⟩

theorem enter_leave {r : Registry} {s : Subscription} (h : r.IsIndexed s) (state : SubscriptionState)
    (reason : Option SuspensionReason) :
    (r.leave s).enter { s with state := state, suspension := reason } =
      { r with subscriptions := r.subscriptions.insert s.id { s with state := state, suspension := reason } } := by
  obtain ⟨owned, howned, hid⟩ := h
  have hsubs : (r.leave s).subscriptions = r.subscriptions.erase s.id := rfl
  have hsessions : (r.leave s).sessions.insert s.session.id
      ((((r.leave s).sessions.get? s.session.id).getD .empty).insert s.id ()) = r.sessions := by
    rw [sessions_leave, howned, Option.getD_some, Table.insert_erase, Table.insert_eq_self hid]
    refine Table.ext fun session => ?_
    rw [Table.get?_insert]
    split
    · rename_i hs
      rw [← hs, howned]
    · rename_i hs
      exact sessions_leave_of_ne r s hs
  unfold enter
  simp only [hsubs, hsessions, Table.insert_erase]
  rfl

/-- A record that ended and is put back has its state again, but no reason. -/
theorem reinstate_ended {r : Registry} {s : Subscription} (h : r.lookup s.id = some s) (hindexed : r.IsIndexed s) :
    (r.leave s).reinstate s.ended s.state = r.update s.id Subscription.withoutReason := by
  unfold reinstate update
  rw [Table.modify_eq_insert _ h]
  exact enter_leave hindexed s.state none

/-! ## Well-formed registries -/

/-- Every record stands under its id, in the index of its session, and is sound. -/
structure WF (r : Registry) : Prop where
  keyed : ∀ id s, r.lookup id = some s → s.id = id
  indexed : ∀ id s, r.lookup id = some s → r.IsIndexed s
  sound : ∀ id s, r.lookup id = some s → s.Sound

namespace WF

variable {r : Registry}

theorem empty : Registry.empty.WF where
  keyed _ _ h := by cases h
  indexed _ _ h := by cases h
  sound _ _ h := by cases h

theorem enter (h : r.WF) {s : Subscription} (sound : s.Sound) : (r.enter s).WF := by
  have hcases : ∀ id t, (r.enter s).lookup id = some t → (s.id = id ∧ t = s) ∨ r.lookup id = some t := by
    intro id t ht
    rw [lookup_enter] at ht
    split at ht
    · rename_i hid
      exact .inl ⟨hid, (Option.some.inj ht).symm⟩
    · exact .inr ht
  constructor
  · intro id t ht
    rcases hcases id t ht with ⟨hid, rfl⟩ | ht
    · exact hid
    · exact h.keyed id t ht
  · intro id t ht
    rcases hcases id t ht with ⟨-, rfl⟩ | ht
    · exact isIndexed_enter r t
    · exact (h.indexed id t ht).enter s
  · intro id t ht
    rcases hcases id t ht with ⟨-, rfl⟩ | ht
    · exact sound
    · exact h.sound id t ht

theorem leave (h : r.WF) (s : Subscription) : (r.leave s).WF := by
  have hcases : ∀ id t, (r.leave s).lookup id = some t → s.id ≠ id ∧ r.lookup id = some t := by
    intro id t ht
    rw [lookup_leave] at ht
    split at ht
    · cases ht
    · rename_i hid
      exact ⟨hid, ht⟩
  constructor
  · intro id t ht
    exact h.keyed id t (hcases id t ht).2
  · intro id t ht
    obtain ⟨hid, ht⟩ := hcases id t ht
    exact (h.indexed id t ht).leave (h.keyed id t ht ▸ hid)
  · intro id t ht
    exact h.sound id t (hcases id t ht).2

/-- Changes that keep ids and sessions. -/
theorem map (h : r.WF) {g : SubscriptionId → Subscription → Subscription}
    (hg : ∀ id s, (g id s).id = s.id ∧ (g id s).session = s.session ∧ (s.Sound → (g id s).Sound)) :
    WF { r with subscriptions := r.subscriptions.map g } := by
  have hcases : ∀ id t, Registry.lookup { r with subscriptions := r.subscriptions.map g } id = some t →
      ∃ s, r.lookup id = some s ∧ t = g id s := by
    intro id t ht
    rw [lookup, Table.get?_map] at ht
    obtain ⟨s, hs, rfl⟩ := Option.map_eq_some_iff.1 ht
    exact ⟨s, hs, rfl⟩
  constructor
  · intro id t ht
    obtain ⟨s, hs, rfl⟩ := hcases id t ht
    rw [(hg id s).1]
    exact h.keyed id s hs
  · intro id t ht
    obtain ⟨s, hs, rfl⟩ := hcases id t ht
    obtain ⟨owned, howned, hid⟩ := h.indexed id s hs
    refine ⟨owned, ?_, ?_⟩
    · rw [(hg id s).2.1]
      exact howned
    · rw [(hg id s).1]
      exact hid
  · intro id t ht
    obtain ⟨s, hs, rfl⟩ := hcases id t ht
    exact (hg id s).2.2 (h.sound id s hs)

theorem update (h : r.WF) (id : SubscriptionId) {f : Subscription → Subscription}
    (hf : ∀ s, (f s).id = s.id ∧ (f s).session = s.session ∧ (s.Sound → (f s).Sound)) : (r.update id f).WF := by
  refine h.map (g := fun k s => if k = id then f s else s) fun k s => ?_
  by_cases hk : k = id
  · simp only [hk, if_true]
    exact hf s
  · simp only [hk, if_false]
    exact ⟨trivial, trivial, fun h => h⟩

end WF

end Registry

end YangSubscriptions
