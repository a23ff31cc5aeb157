import YangSubscriptions.Proofs.Delivery.Tallies
import YangSubscriptions.Proofs.Subscription.Sessions

/-!
# What the registry holds of one subscription

Its record, its tally and the sessions that list it. Each operation of the registry is about one id; what it makes
of the holding of that id is decided by the holding alone, and every other holding stays as it is.
-/

namespace YangSubscriptions

/-- The registry's part of a subscription. -/
structure Holding where
  record : Option Subscription
  tally : Tally
  listed : SessionId → Bool

namespace Registry

def holding (A : SubscriptionId) (r : Registry) : Holding :=
  ⟨r.lookup A, r.tally A, fun session => (r.owned session).contains A⟩

variable (A k : SubscriptionId) (r : Registry)

theorem holding_update (f : Subscription → Subscription) :
    (r.update k f).holding A =
      if k = A then { r.holding A with record := (r.holding A).record.map f } else r.holding A := by
  unfold holding
  rw [lookup_update]
  split <;> rfl

theorem holding_enter (s : Subscription) :
    (r.enter s).holding A =
      if s.id = A then
        { r.holding A with
          record := some s
          listed := fun session => decide (s.session.id = session) || (r.holding A).listed session }
      else r.holding A := by
  unfold holding
  rw [lookup_enter]
  simp only [owned_enter]
  by_cases hs : s.id = A
  · simp only [hs, if_true]
    refine congrArg (Holding.mk _ _) (funext fun session => ?_)
    by_cases hsession : s.session.id = session
    · simp [hsession, Table.contains_insert]
    · simp [hsession]
  · simp only [hs, if_false]
    refine congrArg (Holding.mk _ _) (funext fun session => ?_)
    split
    · rw [Table.contains_insert, decide_eq_false hs, Bool.false_or]
    · rfl

theorem holding_leave (s : Subscription) :
    (r.leave s).holding A =
      if s.id = A then
        { r.holding A with
          record := none
          listed := fun session => decide (s.session.id ≠ session) && (r.holding A).listed session }
      else r.holding A := by
  unfold holding
  rw [lookup_leave]
  simp only [owned_leave]
  by_cases hs : s.id = A
  · simp only [hs, if_true]
    refine congrArg (Holding.mk _ _) (funext fun session => ?_)
    by_cases hsession : s.session.id = session
    · simp [hsession, Table.contains_erase]
    · simp [hsession]
  · simp only [hs, if_false]
    refine congrArg (Holding.mk _ _) (funext fun session => ?_)
    split
    · rw [Table.contains_erase, decide_eq_true hs, Bool.true_and]
    · rfl

/-- The tally of a new id starts at zero. -/
theorem holding_allot (nextId : SubscriptionId) (t : Tally) :
    Registry.holding A { r with nextId, tallies := r.tallies.insert k t } =
      if k = A then { r.holding A with tally := t } else r.holding A := by
  show Holding.mk (r.lookup A) (((r.tallies.insert k t).get? A).getD ⟨0, 0⟩) _ = _
  rw [Table.get?_insert]
  split <;> rfl

theorem holding_countSent :
    (r.countSent k).holding A =
      if k = A then
        { r.holding A with tally := { (r.holding A).tally with sent := (r.holding A).tally.sent + 1 } }
      else r.holding A := by
  show Holding.mk (r.lookup A) ((r.countSent k).tally A) _ = _
  rw [tally_countSent]
  split <;> rfl

theorem holding_countExcluded :
    (r.countExcluded k).holding A =
      if k = A then
        { r.holding A with tally := { (r.holding A).tally with excluded := (r.holding A).tally.excluded + 1 } }
      else r.holding A := by
  show Holding.mk (r.lookup A) ((r.countExcluded k).tally A) _ = _
  rw [tally_countExcluded]
  split <;> rfl

end Registry

end YangSubscriptions
