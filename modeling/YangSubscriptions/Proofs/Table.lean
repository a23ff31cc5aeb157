import YangSubscriptions.Table

/-!
# Laws of tables

Look-ups through `filter`, what operations do to the size, and that the keys are distinct. With them
the proofs about records, deadlines and listeners never look at the entries of a table.
-/

namespace YangSubscriptions.Table

variable {κ : Type} [Ord κ] {α β : Type}

theorem size_map (f : κ → α → β) (t : Table κ α) : (t.map f).size = t.size := by
  simp [size, map]

section
variable [DecidableEq κ]

theorem size_modify (t : Table κ α) (k : κ) (f : α → α) : (t.modify k f).size = t.size := size_map ..

variable [Std.TransOrd κ] [Std.LawfulEqOrd κ]

/-! ## Keys -/

omit [DecidableEq κ] [Std.TransOrd κ] in
theorem keys_nodup (t : Table κ α) : t.keys.Nodup := by
  rw [keys, List.Nodup, List.pairwise_map]
  refine t.sorted.imp fun {a b} h e => ?_
  rw [e, Std.compare_self] at h
  cases h

omit [Std.TransOrd κ] in
theorem find?_tail_of_sorted {p : κ × α} {l : List (κ × α)}
    (h : (p :: l).Pairwise fun a b => compare a.1 b.1 = .lt) : find? p.1 l = none :=
  find?_eq_none_of_lt fun q hq => (List.pairwise_cons.1 h).1 q hq

/-! ## Sizes -/

theorem length_insertEntry {k : κ} {a : α} {l : List (κ × α)}
    (h : l.Pairwise fun a b => compare a.1 b.1 = .lt) :
    (insertEntry k a l).length = if (find? k l).isSome then l.length else l.length + 1 := by
  induction l with
  | nil => simp [insertEntry, find?]
  | cons q rest ih =>
    simp only [insertEntry]
    split
    · rename_i hlt
      have hnone : find? k (q :: rest) = none := by
        refine find?_eq_none_of_lt fun r hr => ?_
        rcases List.mem_cons.1 hr with rfl | hr
        · exact hlt
        · exact Std.TransCmp.lt_trans hlt ((List.pairwise_cons.1 h).1 r hr)
      simp [hnone]
    · rename_i heq
      have hk : k = q.1 := Std.LawfulEqCmp.compare_eq_iff_eq.1 heq
      simp [find?, hk]
    · rename_i hgt
      have hk : ¬ q.1 = k := fun e => by rw [e, Std.compare_self] at hgt; cases hgt
      simp only [List.length_cons, find?, hk, if_false, ih (List.pairwise_cons.1 h).2]
      split <;> rfl

/-- A new key makes the table one larger. -/
theorem size_insert_of_get?_none {t : Table κ α} {k : κ} (a : α) (h : t.get? k = none) :
    (t.insert k a).size = t.size + 1 := by
  show (insertEntry k a t.entries).length = _
  rw [length_insertEntry t.sorted]
  show (if (t.get? k).isSome then _ else _) = _
  rw [h]
  rfl

/-- A table without entries is the empty one. -/
theorem eq_empty_iff {t : Table κ α} : t = empty ↔ ∀ k, t.get? k = none :=
  ⟨fun h k => by rw [h, get?_empty], fun h => ext fun k => by rw [h k, get?_empty]⟩

theorem size_eq_zero_iff {t : Table κ α} : t.size = 0 ↔ ∀ k, t.get? k = none := by
  constructor
  · intro h k
    rw [get?, List.length_eq_zero_iff.1 h]
    rfl
  · intro h
    rw [eq_empty_iff.2 h]
    rfl

/-! ## Look-ups -/

omit [Std.TransOrd κ] in
theorem find?_filter {p : κ → α → Bool} {k : κ} {l : List (κ × α)}
    (h : l.Pairwise fun a b => compare a.1 b.1 = .lt) :
    find? k (l.filter fun e => p e.1 e.2) = (find? k l).filter (p k) := by
  induction l with
  | nil => rfl
  | cons q rest ih =>
    have ih := ih (List.pairwise_cons.1 h).2
    rw [List.filter_cons]
    by_cases hq : q.1 = k
    · subst hq
      rw [find?_tail_of_sorted h] at ih
      by_cases hp : p q.1 q.2 = true
      · simp [find?, hp, Option.filter]
      · simp [find?, hp, ih, Option.filter]
    · by_cases hp : p q.1 q.2 = true <;> simp [find?, hp, hq, ih]

omit [Std.TransOrd κ] in
/-- Looked up after a filter is what passes it. -/
theorem get?_filter (t : Table κ α) (p : κ → α → Bool) (k : κ) :
    (t.filter p).get? k = (t.get? k).filter (p k) := find?_filter t.sorted

theorem map_eq_self {f : κ → α → α} {t : Table κ α} (h : ∀ k a, f k a = a) : t.map f = t := by
  refine ext fun k => ?_
  rw [get?_map]
  cases t.get? k with
  | none => rfl
  | some a => rw [Option.map_some, h]

theorem map_map (f : κ → α → β) {γ : Type} (g : κ → β → γ) (t : Table κ α) :
    (t.map f).map g = t.map fun k a => g k (f k a) := by
  refine ext fun k => ?_
  simp only [get?_map, Option.map_map]
  rfl

/-! ## Operations on one key -/

theorem contains_insert (t : Table κ α) (k k' : κ) (a : α) :
    (t.insert k a).contains k' = (decide (k = k') || t.contains k') := by
  rw [contains, get?_insert]
  by_cases h : k = k' <;> simp [h, contains]

omit [Std.TransOrd κ] [Std.LawfulEqOrd κ] in
theorem contains_erase (t : Table κ α) (k k' : κ) :
    (t.erase k).contains k' = (decide (k ≠ k') && t.contains k') := by
  rw [contains, get?_erase]
  by_cases h : k = k' <;> simp [h, contains]

/-- An entry that is there after an insertion was put there or was there before. -/
theorem get?_of_insert {t : Table κ α} {k k' : κ} {a b : α} (h : (t.insert k a).get? k' = some b) :
    (k = k' ∧ b = a) ∨ t.get? k' = some b := by
  rw [get?_insert] at h
  split at h
  · exact .inl ⟨‹_›, (Option.some.inj h).symm⟩
  · exact .inr h

omit [Std.TransOrd κ] [Std.LawfulEqOrd κ] in
theorem get?_of_erase {t : Table κ α} {k k' : κ} {a : α} (h : (t.erase k).get? k' = some a) :
    k ≠ k' ∧ t.get? k' = some a := by
  rw [get?_erase] at h
  split at h
  · cases h
  · exact ⟨‹_›, h⟩

/-- Putting what is there changes nothing. -/
theorem insert_eq_self {t : Table κ α} {k : κ} {a : α} (h : t.get? k = some a) : t.insert k a = t := by
  refine ext fun k' => ?_
  rw [get?_insert]
  split
  · rename_i hk
    rw [← hk, h]
  · rfl

theorem modify_eq_insert {t : Table κ α} {k : κ} {a : α} (f : α → α) (h : t.get? k = some a) :
    t.modify k f = t.insert k (f a) := by
  refine ext fun k' => ?_
  rw [get?_modify, get?_insert]
  split
  · rename_i hk
    rw [← hk, h, Option.map_some]
  · rfl

theorem insert_insert (t : Table κ α) (k : κ) (a b : α) : (t.insert k a).insert k b = t.insert k b := by
  refine ext fun k' => ?_
  simp only [get?_insert]
  split <;> rfl

/-- Putting an entry with a new key is undone by erasing it. -/
theorem erase_insert {t : Table κ α} {k : κ} (a : α) (h : t.get? k = none) : (t.insert k a).erase k = t := by
  refine ext fun k' => ?_
  rw [get?_erase, get?_insert]
  split
  · rename_i hk
    rw [← hk, h]
  · rfl

/-- Erasing does not matter to a key that is put again. -/
theorem insert_erase (t : Table κ α) (k : κ) (a : α) : (t.erase k).insert k a = t.insert k a := by
  refine ext fun k' => ?_
  simp only [get?_insert, get?_erase]
  split <;> rfl

end

end YangSubscriptions.Table
