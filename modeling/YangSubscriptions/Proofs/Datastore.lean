import YangSubscriptions.Proofs.Table
import YangSubscriptions.Datastore

/-!
# Laws of the datastore

What a commit comes to, what is read after a write, and that the records of two subscriptions never
lie on one path.
-/

namespace YangSubscriptions

/-! ## Paths of records -/

theorem SubscriptionId.toString_injective {id id' : SubscriptionId} (h : toString id = toString id') : id = id' := by
  have hdigits : (toString id).toList = (toString id').toList := congrArg String.toList h
  change (Nat.repr id.toNat).toList = (Nat.repr id'.toNat).toList at hdigits
  rw [Nat.toList_repr, Nat.toList_repr] at hdigits
  have hvalue := congrArg (Nat.ofDigitChars 10 · 0) hdigits
  simp only [Nat.ofDigitChars_ten_toDigits] at hvalue
  exact UInt32.toNat_inj.1 hvalue

namespace DataPath

/-- No two subscriptions have one path. -/
theorem subscription_injective {id id' : SubscriptionId} (h : subscription id = subscription id') : id = id' := by
  have hsegment : toString "subscription=" ++ toString id = toString "subscription=" ++ toString id' :=
    (List.cons.inj (List.cons.inj h).2).1
  have hchars := congrArg String.toList hsegment
  rw [String.toList_append, String.toList_append] at hchars
  exact SubscriptionId.toString_injective (String.toList_inj.1 (List.append_cancel_left hchars))

/-- A record lies below itself and below no other. -/
theorem isBelow_subscription (id id' : SubscriptionId) :
    (subscription id').isBelow (subscription id) = true ↔ id = id' := by
  rw [isBelow, List.isPrefixOf_iff_prefix]
  constructor
  · intro h
    exact subscription_injective (h.eq_of_length rfl)
  · rintro rfl
    exact List.prefix_rfl

end DataPath

namespace Datastore

/-! ## Commits -/

/-- What a commit answers while the datastore refuses. -/
def refusal : DatastoreFault := .commitFailed "datastore is not accepting commits"

variable {d : Datastore}

theorem commit_of_refusing (h : d.refusing = true) (writes : List Write) : d.commit writes = .error refusal := by
  simp only [commit, h, if_true]
  rfl

theorem commit_of_accepting (h : d.refusing = false) (writes : List Write) :
    d.commit writes = .ok (writes.foldl apply d) := by
  simp only [commit, h]
  rfl

/-- While commits are refused nothing changes. -/
theorem commitOrKeep_of_refusing (h : d.refusing = true) (writes : List Write) : d.commitOrKeep writes = d := by
  rw [commitOrKeep, commit_of_refusing h]
  rfl

theorem commitOrKeep_of_accepting (h : d.refusing = false) (writes : List Write) :
    d.commitOrKeep writes = writes.foldl apply d := by
  rw [commitOrKeep, commit_of_accepting h]
  rfl

theorem refusing_foldl_apply (writes : List Write) (d : Datastore) : (writes.foldl apply d).refusing = d.refusing := by
  induction writes generalizing d with
  | nil => rfl
  | cons w writes ih =>
    rw [List.foldl_cons, ih]
    cases w <;> rfl

theorem refusing_commitOrKeep (d : Datastore) (writes : List Write) :
    (d.commitOrKeep writes).refusing = d.refusing := by
  cases hrefusing : d.refusing with
  | true => rw [commitOrKeep_of_refusing hrefusing, hrefusing]
  | false => rw [commitOrKeep_of_accepting hrefusing, refusing_foldl_apply, hrefusing]

/-! ## Reads -/

/-- A value is read where it was put, and nowhere else. -/
theorem read_put (d : Datastore) (path : DataPath) (value : Json) (p : DataPath) :
    (d.apply (.put path value)).read p = if path = p then some value else d.read p := Table.get?_insert ..

theorem read_put_subscription (d : Datastore) (id : SubscriptionId) (value : Json) (k : SubscriptionId) :
    (d.apply (.put (.subscription id) value)).read (.subscription k) =
      if id = k then some value else d.read (.subscription k) := by
  rw [read_put]
  by_cases h : id = k
  · rw [if_pos h, if_pos (congrArg DataPath.subscription h)]
  · rw [if_neg h, if_neg fun e => h (DataPath.subscription_injective e)]

/-- Deleting takes all that is at or below the path. -/
theorem read_delete (d : Datastore) (path p : DataPath) :
    (d.apply (.delete path)).read p = if p.isBelow path then none else d.read p := by
  show (d.tree.filter fun p _ => !p.isBelow path).get? p = _
  rw [Table.get?_filter, read]
  cases hp : p.isBelow path <;> cases d.tree.get? p <;> simp [Option.filter]

end Datastore

end YangSubscriptions
