/-!
# Tables

Finite maps as lists of entries with ascending keys. The order is part of the type, so that two
tables with the same look-ups are equal (`Table.ext`).
-/

namespace YangSubscriptions

structure Table (κ : Type) [Ord κ] (α : Type) where
  entries : List (κ × α)
  sorted : entries.Pairwise fun a b => compare a.1 b.1 = .lt

namespace Table

variable {κ : Type} [Ord κ] {α β : Type}

def empty : Table κ α := ⟨[], .nil⟩

instance : Inhabited (Table κ α) := ⟨empty⟩

def find? [DecidableEq κ] (k : κ) : List (κ × α) → Option α
  | [] => none
  | (k', a) :: rest => if k' = k then some a else find? k rest

def get? [DecidableEq κ] (t : Table κ α) (k : κ) : Option α := find? k t.entries

def contains [DecidableEq κ] (t : Table κ α) (k : κ) : Bool := (t.get? k).isSome

/-- The keys in their order. -/
def keys (t : Table κ α) : List κ := t.entries.map (·.1)

def values (t : Table κ α) : List α := t.entries.map (·.2)

def size (t : Table κ α) : Nat := t.entries.length

/-- Puts an entry where its key belongs. -/
def insertEntry (k : κ) (a : α) : List (κ × α) → List (κ × α)
  | [] => [(k, a)]
  | (k', a') :: rest =>
    match compare k k' with
    | .lt => (k, a) :: (k', a') :: rest
    | .eq => (k, a) :: rest
    | .gt => (k', a') :: insertEntry k a rest

theorem insertEntry_fst {k : κ} {a : α} {l : List (κ × α)} {p : κ × α} (h : p ∈ insertEntry k a l) :
    p.1 = k ∨ p ∈ l := by
  induction l with
  | nil => simp only [insertEntry, List.mem_singleton] at h; exact .inl (by rw [h])
  | cons q rest ih =>
    simp only [insertEntry] at h
    split at h
    · rcases List.mem_cons.1 h with rfl | h
      · exact .inl rfl
      · exact .inr h
    · rcases List.mem_cons.1 h with rfl | h
      · exact .inl rfl
      · exact .inr (List.mem_cons_of_mem _ h)
    · rcases List.mem_cons.1 h with rfl | h
      · exact .inr List.mem_cons_self
      · exact (ih h).imp_right (List.mem_cons_of_mem _)

section
variable [Std.TransOrd κ]

/-- Putting an entry keeps the keys ascending. -/
theorem sorted_insertEntry {k : κ} {a : α} {l : List (κ × α)}
    (h : l.Pairwise fun a b => compare a.1 b.1 = .lt) :
    (insertEntry k a l).Pairwise fun a b => compare a.1 b.1 = .lt := by
  induction l with
  | nil => simp [insertEntry]
  | cons q rest ih =>
    obtain ⟨h₁, h₂⟩ := List.pairwise_cons.1 h
    simp only [insertEntry]
    split
    · rename_i hlt
      refine List.pairwise_cons.2 ⟨fun p hp => ?_, h⟩
      rcases List.mem_cons.1 hp with rfl | hp
      · exact hlt
      · exact Std.TransCmp.lt_trans hlt (h₁ p hp)
    · rename_i heq
      exact List.pairwise_cons.2 ⟨fun p hp => Std.TransCmp.lt_of_eq_of_lt heq (h₁ p hp), h₂⟩
    · rename_i hgt
      refine List.pairwise_cons.2 ⟨fun p hp => ?_, ih h₂⟩
      rcases insertEntry_fst hp with rfl | hp
      · exact Std.OrientedCmp.lt_of_gt hgt
      · exact h₁ p hp

/-- Puts an entry, in place of one with the same key. -/
def insert (t : Table κ α) (k : κ) (a : α) : Table κ α := ⟨insertEntry k a t.entries, sorted_insertEntry t.sorted⟩

end

/-- Keeps the entries that pass. -/
def filter (p : κ → α → Bool) (t : Table κ α) : Table κ α :=
  ⟨t.entries.filter fun e => p e.1 e.2, t.sorted.filter _⟩

def erase [DecidableEq κ] (t : Table κ α) (k : κ) : Table κ α := t.filter fun k' _ => k' ≠ k

/-- Changes every value in its place. -/
def map (f : κ → α → β) (t : Table κ α) : Table κ β :=
  ⟨t.entries.map fun e => (e.1, f e.1 e.2), List.pairwise_map.2 (t.sorted.imp id)⟩

/-- Changes the value at a key, if there is one. -/
def modify [DecidableEq κ] (t : Table κ α) (k : κ) (f : α → α) : Table κ α :=
  t.map fun k' a => if k' = k then f a else a

/-- The table of these entries, later ones in place of earlier ones. -/
def ofList [Std.TransOrd κ] (es : List (κ × α)) : Table κ α := es.foldl (fun t e => t.insert e.1 e.2) empty

/-! ## Look-ups -/

section
variable [DecidableEq κ]

@[simp] theorem get?_empty (k : κ) : (empty : Table κ α).get? k = none := rfl

omit [Ord κ] in
theorem find?_filter_key (p : κ → Bool) (k : κ) (l : List (κ × α)) :
    find? k (l.filter fun e => p e.1) = if p k then find? k l else none := by
  induction l with
  | nil => simp [find?]
  | cons q rest ih =>
    simp only [List.filter_cons]
    by_cases hq : q.1 = k
    · subst hq
      by_cases hp : p q.1 <;> simp [find?, hp, ih]
    · by_cases hp : p q.1 <;> simp [find?, hp, ih, hq]

/-- Nothing is found under the erased key, and the rest stays. -/
theorem get?_erase (t : Table κ α) (k k' : κ) : (t.erase k).get? k' = if k = k' then none else t.get? k' := by
  show find? k' (t.entries.filter _) = _
  rw [find?_filter_key (fun x => x ≠ k)]
  by_cases h : k = k'
  · simp [h]
  · have : ¬ k' = k := fun e => h e.symm
    simp [h, this, get?]

omit [Ord κ] in
theorem find?_map (f : κ → α → β) (k : κ) (l : List (κ × α)) :
    find? k (l.map fun e => (e.1, f e.1 e.2)) = (find? k l).map (f k) := by
  induction l with
  | nil => rfl
  | cons q rest ih =>
    simp only [List.map_cons, find?]
    split
    · rename_i h; simp [h]
    · exact ih

theorem get?_map (f : κ → α → β) (t : Table κ α) (k : κ) : (t.map f).get? k = (t.get? k).map (f k) :=
  find?_map ..

/-- Only the value of that key changes. -/
theorem get?_modify (t : Table κ α) (k k' : κ) (f : α → α) :
    (t.modify k f).get? k' = if k = k' then (t.get? k').map f else t.get? k' := by
  rw [modify, get?_map]
  by_cases h : k = k'
  · simp [h]
  · have : ¬ k' = k := fun e => h e.symm
    cases t.get? k' <;> simp [h, this]

theorem mem_keys_iff (t : Table κ α) (k : κ) : k ∈ t.keys ↔ (t.get? k).isSome := by
  unfold keys get?
  induction t.entries with
  | nil => simp [find?]
  | cons p l ih =>
    simp only [List.map_cons, List.mem_cons, find?]
    split
    · rename_i h; simp [h]
    · rename_i h
      have : ¬ k = p.1 := fun e => h e.symm
      simp [this, ih]

variable [Std.TransOrd κ] [Std.LawfulEqOrd κ]

omit [Std.TransOrd κ] in
theorem find?_insertEntry (k k' : κ) (a : α) (l : List (κ × α)) :
    find? k' (insertEntry k a l) = if k = k' then some a else find? k' l := by
  induction l with
  | nil => simp [insertEntry, find?]
  | cons q rest ih =>
    simp only [insertEntry]
    split
    · simp [find?]
    · rename_i heq
      have hk : k = q.1 := Std.LawfulEqCmp.compare_eq_iff_eq.1 heq
      simp only [find?, hk]
      split <;> rfl
    · rename_i hgt
      have hk : ¬ k = q.1 := fun e => by rw [e, Std.compare_self] at hgt; cases hgt
      simp only [find?, ih]
      by_cases h : q.1 = k'
      · have : ¬ k = k' := fun e => hk (e.trans h.symm)
        simp [h, this]
      · simp [h]

/-- Found is what was put last. -/
theorem get?_insert (t : Table κ α) (k k' : κ) (a : α) :
    (t.insert k a).get? k' = if k = k' then some a else t.get? k' := find?_insertEntry ..

omit [Std.TransOrd κ] in
theorem find?_eq_none_of_lt {k : κ} {l : List (κ × α)} (h : ∀ p ∈ l, compare k p.1 = .lt) : find? k l = none := by
  induction l with
  | nil => rfl
  | cons q rest ih =>
    have hq := h q List.mem_cons_self
    have : ¬ q.1 = k := fun e => by rw [e, Std.compare_self] at hq; cases hq
    simp only [find?, this, if_false]
    exact ih fun p hp => h p (List.mem_cons_of_mem _ hp)

/-- Ascending entries are determined by what is found in them. -/
theorem eq_of_find? {l m : List (κ × α)} (hl : l.Pairwise fun a b => compare a.1 b.1 = .lt)
    (hm : m.Pairwise fun a b => compare a.1 b.1 = .lt) (h : ∀ k, find? k l = find? k m) : l = m := by
  induction l generalizing m with
  | nil =>
    cases m with
    | nil => rfl
    | cons q m => have := h q.1; simp [find?] at this
  | cons p l ih =>
    obtain ⟨hp, hl'⟩ := List.pairwise_cons.1 hl
    cases m with
    | nil => have := h p.1; simp [find?] at this
    | cons q m =>
      obtain ⟨hq, hm'⟩ := List.pairwise_cons.1 hm
      have hkey : p.1 = q.1 := by
        have h₁ := h p.1
        have h₂ := h q.1
        cases hc : compare p.1 q.1 with
        | eq => exact Std.LawfulEqCmp.compare_eq_iff_eq.1 hc
        | lt =>
          have : find? p.1 (q :: m) = none := by
            refine find?_eq_none_of_lt fun r hr => ?_
            rcases List.mem_cons.1 hr with rfl | hr
            · exact hc
            · exact Std.TransCmp.lt_trans hc (hq r hr)
          rw [this] at h₁
          simp [find?] at h₁
        | gt =>
          have hc' := Std.OrientedCmp.lt_of_gt hc
          have : find? q.1 (p :: l) = none := by
            refine find?_eq_none_of_lt fun r hr => ?_
            rcases List.mem_cons.1 hr with rfl | hr
            · exact hc'
            · exact Std.TransCmp.lt_trans hc' (hp r hr)
          rw [this] at h₂
          simp [find?] at h₂
      have hval : p.2 = q.2 := by
        have := h p.1
        simpa [find?, ← hkey] using this
      have hpq : p = q := Prod.ext hkey hval
      subst hpq
      congr 1
      refine ih hl' hm' fun k => ?_
      by_cases hk : p.1 = k
      · subst hk
        rw [find?_eq_none_of_lt hp, find?_eq_none_of_lt hq]
      · have := h k
        simpa [find?, hk] using this

/-- Tables are equal when they answer alike. -/
theorem ext {s t : Table κ α} (h : ∀ k, s.get? k = t.get? k) : s = t := by
  obtain ⟨l, hl⟩ := s
  obtain ⟨m, hm⟩ := t
  have : l = m := eq_of_find? hl hm h
  subst this
  rfl

end

end Table

end YangSubscriptions
