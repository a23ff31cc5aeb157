import Mathlib.Data.List.Sort
import YangSubscriptions.Proofs.Filter.Subtree

/-!
# Laws of unions

Selections that fit one node are told apart by the paths they hold (`eq_of_holds`): a partial selection holds
no path that leads beyond the end of the node, which one of the whole node does. So the laws of unions of
paths are laws of `union`. Whatever a filter node selects names something at every depth (`NowhereEmpty`), and
unions keep that.
-/

namespace YangSubscriptions

namespace Selection

/-! ## Paths tell selections apart -/

/-- Nothing lies behind the last part of a node, so that a partial selection does not hold it. -/
theorem holdsAt_length {kept : Positions} {items : List Node} (h : FitsEach kept items) :
    holdsAt kept items.length [] = false :=
  holdsAt_of_forall_ne (fun _ hq => Nat.ne_of_lt (h.lt_length hq)) []

/-- What holds all paths is the selection of the whole node. -/
theorem eq_whole_of_holds {s : Selection} {node : Node} (hs : s.Fits node) (h : ∀ p, s.holds p = true) :
    s = .whole := by
  cases s with
  | whole => rfl
  | children kept =>
    obtain ⟨n, cs, rfl, hkept⟩ := fits_children hs
    cases (holdsAt_length hkept).symm.trans (h [_])
  | entries kept =>
    obtain ⟨n, es, rfl, hkept⟩ := fits_entries hs
    cases (holdsAt_length hkept).symm.trans (h [_])
  | values kept =>
    obtain ⟨n, vs, rfl, -, hin⟩ := fits_values hs
    have hout := h [vs.length]
    rw [holds, List.contains_iff_mem] at hout
    exact absurd (hin _ hout) (Nat.lt_irrefl _)

mutual

/-- Selections that fit a node and hold the same paths are the same. -/
theorem eq_of_holds (s t : Selection) {node : Node} (hs : s.Fits node) (ht : t.Fits node)
    (h : ∀ p, s.holds p = t.holds p) : s = t := by
  match s, t with
  | .whole, t => exact (eq_whole_of_holds ht fun p => by rw [← h p, holds]).symm
  | s, .whole => exact eq_whole_of_holds hs fun p => by rw [h p, holds]
  | .children l, .children r =>
    obtain ⟨n, cs, rfl, hl⟩ := fits_children hs
    exact congrArg children (eq_of_holdsAt l r hl ht fun i p => h (i :: p))
  | .entries l, .entries r =>
    obtain ⟨n, es, rfl, hl⟩ := fits_entries hs
    exact congrArg entries (eq_of_holdsAt l r hl ht fun i p => h (i :: p))
  | .values l, .values r =>
    obtain ⟨n, vs, rfl, hl, -⟩ := fits_values hs
    refine congrArg values (hl.eq_of_mem_iff ht.1 fun i => ?_)
    have hi := h [i]
    rwa [holds, holds, Bool.eq_iff_iff, List.contains_iff_mem, List.contains_iff_mem] at hi
  | .children _, .entries _ | .children _, .values _ | .entries _, .children _ | .entries _, .values _
  | .values _, .children _ | .values _, .entries _ => cases sameShape_of_fits hs ht

theorem eq_of_holdsAt (l r : Positions) {items : List Node} (hl : FitsEach l items) (hr : FitsEach r items)
    (h : ∀ i p, holdsAt l i p = holdsAt r i p) : l = r := by
  have hpositions : ∀ i, (∃ q ∈ l, q.1 = i) ↔ ∃ q ∈ r, q.1 = i := fun i => by
    rw [← holdsAt_nil_iff, ← holdsAt_nil_iff, h]
  match l, r with
  | [], [] => rfl
  | [], q :: r =>
    obtain ⟨a, ha, -⟩ := (hpositions q.1).2 ⟨q, List.mem_cons_self, rfl⟩
    cases ha
  | q :: l, [] =>
    obtain ⟨a, ha, -⟩ := (hpositions q.1).1 ⟨q, List.mem_cons_self, rfl⟩
    cases ha
  | (i, s) :: l, (j, t) :: r =>
    obtain ⟨hi, ⟨item, hitem, hs⟩, hl⟩ := hl
    obtain ⟨hj, ⟨item', hitem', ht⟩, hr⟩ := hr
    -- each list has the first position of the other, and none before its own
    obtain rfl : i = j := by
      obtain ⟨a, ha, hai⟩ := (hpositions i).1 ⟨_, List.mem_cons_self, rfl⟩
      obtain ⟨b, hb, hbj⟩ := (hpositions j).2 ⟨_, List.mem_cons_self, rfl⟩
      rcases List.mem_cons.1 ha with rfl | ha
      · exact hai.symm
      · rcases List.mem_cons.1 hb with rfl | hb
        · exact hbj
        · exact absurd (hai ▸ hj a ha) (Nat.lt_asymm (hbj ▸ hi b hb))
    obtain rfl : item = item' := Option.some.inj (hitem.symm.trans hitem')
    have hbehind : ∀ {kept : Positions}, (∀ q ∈ kept, i < q.1) → ∀ p, holdsAt kept i p = false :=
      fun hlt => holdsAt_of_forall_ne fun q hq => Nat.ne_of_gt (hlt q hq)
    obtain rfl : s = t := eq_of_holds s t hs ht fun p => by
      simpa [holdsAt, hbehind hi, hbehind hj] using h i p
    obtain rfl : l = r := eq_of_holdsAt l r hl hr fun k p => by
      by_cases hk : i = k
      · rw [← hk, hbehind hi, hbehind hj]
      · have hkp := h k p
        rw [holdsAt, holdsAt, beq_eq_false_iff_ne.2 hk] at hkp
        exact hkp
    rfl

end

section
variable {s t u : Selection} {node : Node}

theorem union_comm (hs : s.Fits node) (ht : t.Fits node) : s.union t = t.union s := by
  obtain ⟨hst, hholds⟩ := union_spec s t hs ht
  obtain ⟨hts, hholds'⟩ := union_spec t s ht hs
  exact eq_of_holds _ _ hst hts fun p => by rw [hholds, hholds', Bool.or_comm]

theorem union_assoc (hs : s.Fits node) (ht : t.Fits node) (hu : u.Fits node) :
    (s.union t).union u = s.union (t.union u) := by
  obtain ⟨hst, hholdsST⟩ := union_spec s t hs ht
  obtain ⟨htu, hholdsTU⟩ := union_spec t u ht hu
  obtain ⟨hleft, hholdsLeft⟩ := union_spec _ u hst hu
  obtain ⟨hright, hholdsRight⟩ := union_spec s _ hs htu
  exact eq_of_holds _ _ hleft hright fun p => by
    rw [hholdsLeft, hholdsST, hholdsRight, hholdsTU, Bool.or_assoc]

theorem union_self (hs : s.Fits node) : s.union s = s := by
  obtain ⟨hss, hholds⟩ := union_spec s s hs hs
  exact eq_of_holds _ _ hss hs fun p => by rw [hholds, Bool.or_self]

end

/-! ## No part is empty -/

mutual

/-- Are there positions wherever the selection is partial? -/
def NowhereEmpty : Selection → Prop
  | .whole => True
  | .children kept | .entries kept => kept ≠ [] ∧ NowhereEmptyEach kept
  | .values kept => kept ≠ []

def NowhereEmptyEach : Positions → Prop
  | [] => True
  | (_, s) :: kept => s.NowhereEmpty ∧ NowhereEmptyEach kept

end

theorem nowhereEmptyEach_iff {kept : Positions} : NowhereEmptyEach kept ↔ ∀ q ∈ kept, q.2.NowhereEmpty := by
  induction kept with
  | nil => simp [NowhereEmptyEach]
  | cons q kept ih => rw [NowhereEmptyEach, ih, List.forall_mem_cons]

theorem mergePositions_ne_nil {l : Positions} (h : l ≠ []) (r : Positions) : mergePositions l r ≠ [] := by
  cases l with
  | nil => exact absurd rfl h
  | cons q l =>
    rw [mergePositions_cons]
    exact List.append_ne_nil_of_right_ne_nil _ (List.cons_ne_nil _ _)

theorem mergeValues_ne_nil {l : List Nat} (h : l ≠ []) (r : List Nat) : mergeValues l r ≠ [] := by
  cases l with
  | nil => exact absurd rfl h
  | cons i l =>
    rw [mergeValues]
    exact List.append_ne_nil_of_right_ne_nil _ (List.cons_ne_nil _ _)

mutual

theorem nowhereEmpty_union (s t : Selection) (hs : s.NowhereEmpty) (ht : t.NowhereEmpty) :
    (s.union t).NowhereEmpty := by
  match s, t with
  | .whole, t => cases t <;> trivial
  | s, .whole => cases s <;> trivial
  | .children l, .children r => exact ⟨mergePositions_ne_nil hs.1 r, nowhereEmptyEach_merge l r hs.2 ht.2⟩
  | .entries l, .entries r => exact ⟨mergePositions_ne_nil hs.1 r, nowhereEmptyEach_merge l r hs.2 ht.2⟩
  | .values l, .values r => exact mergeValues_ne_nil hs r
  | .children _, .entries _ | .children _, .values _ | .entries _, .children _ | .entries _, .values _
  | .values _, .children _ | .values _, .entries _ => trivial

theorem nowhereEmptyEach_merge (l r : Positions) (hl : NowhereEmptyEach l) (hr : NowhereEmptyEach r) :
    NowhereEmptyEach (mergePositions l r) := by
  match l with
  | [] => exact hr
  | (i, s) :: l =>
    obtain ⟨hs, hl⟩ := hl
    rw [nowhereEmptyEach_iff] at hr
    have hhere : (s.unionAt r i).NowhereEmpty := by
      unfold unionAt
      cases hfind : r.find? (·.1 = i) with
      | none => exact hs
      | some q => exact nowhereEmpty_union s q.2 hs (hr q (List.mem_of_find?_eq_some hfind))
    have hlater : NowhereEmptyEach (mergePositions l (r.dropWhile (·.1 ≤ i))) :=
      nowhereEmptyEach_merge l _ hl
        (nowhereEmptyEach_iff.2 fun q hq => hr q ((List.dropWhile_sublist _).subset hq))
    rw [nowhereEmptyEach_iff] at hlater ⊢
    rw [mergePositions_cons]
    intro q hq
    rcases List.mem_append.1 hq with hq | hq
    · exact hr q ((List.takeWhile_sublist _).subset hq)
    · rcases List.mem_cons.1 hq with rfl | hq
      · exact hhere
      · exact hlater q hq

end

theorem exists_of_mem_ofEach {α : Type} {select : α → Option Selection} {k : Nat} {xs : List α} {q : Nat × Selection}
    (hq : q ∈ ofEach select k xs) : ∃ x ∈ xs, select x = some q.2 := by
  obtain ⟨a, ha, hselect⟩ := List.mem_filterMap.1 hq
  obtain ⟨s, hs, rfl⟩ := Option.map_eq_some_iff.1 hselect
  exact ⟨a.1, List.fst_mem_of_mem_zipIdx ha, hs⟩

end Selection

namespace FilterNode

open Selection (NowhereEmpty NowhereEmptyEach)

theorem ofKept_eq_some_iff {α : Type} {select : List α → Selection} {kept : List α} {s : Selection} :
    ofKept select kept = some s ↔ kept ≠ [] ∧ select kept = s := by
  unfold ofKept
  cases kept <;> simp

mutual

theorem nowhereEmpty_of_select (f : FilterNode) (node : Node) {s : Selection} (h : f.select node = some s) :
    s.NowhereEmpty := by
  match f with
  | .content n t =>
    unfold select at h
    obtain ⟨-, h⟩ := Option.ite_none_right_eq_some.1 h
    cases node with
    | leaf m v =>
      obtain ⟨-, h⟩ := Option.ite_none_right_eq_some.1 h
      exact Option.some.inj h ▸ trivial
    | leafList m vs =>
      obtain ⟨hne, rfl⟩ := ofKept_eq_some_iff.1 h
      exact hne
    | container m cs => cases h
    | list m es => cases h
  | .containment n fs =>
    unfold select at h
    obtain ⟨-, h⟩ := Option.ite_none_right_eq_some.1 h
    by_cases hfs : fs = []
    · rw [if_pos (List.isEmpty_iff.2 hfs)] at h
      exact Option.some.inj h ▸ trivial
    · rw [if_neg (by rwa [List.isEmpty_iff])] at h
      cases node with
      | leaf m v => cases h
      | leafList m vs => cases h
      | container m cs => exact nowhereEmpty_of_selectSiblings fs hfs cs h
      | list m es =>
        obtain ⟨hne, rfl⟩ := ofKept_eq_some_iff.1 h
        refine ⟨hne, Selection.nowhereEmptyEach_iff.2 fun q hq => ?_⟩
        obtain ⟨e, -, he⟩ := Selection.exists_of_mem_ofEach hq
        exact nowhereEmpty_of_selectSiblings fs hfs e he

theorem nowhereEmpty_of_selectSiblings (fs : List FilterNode) (hfs : fs ≠ []) {contentOnly : Bool} (cs : List Node)
    {s : Selection} (h : selectSiblings fs contentOnly cs = some s) : s.NowhereEmpty := by
  rw [selectSiblings] at h
  obtain ⟨kept, hall, rfl⟩ := Option.map_eq_some_iff.1 h
  obtain ⟨hne, hkept⟩ := nowhereEmpty_of_selectAll fs cs hall
  cases contentOnly with
  | true => trivial
  | false => exact ⟨hne hfs, hkept⟩

theorem nowhereEmpty_of_selectAll (fs : List FilterNode) (cs : List Node) {kept : Positions}
    (h : selectAll fs cs = some kept) : (fs ≠ [] → kept ≠ []) ∧ NowhereEmptyEach kept := by
  match fs with
  | [] =>
    rw [selectAll] at h
    obtain rfl := Option.some.inj h
    exact ⟨fun hne => absurd rfl hne, trivial⟩
  | f :: fs =>
    rw [selectAll] at h
    obtain ⟨hne, h⟩ := Option.ite_none_left_eq_some.1 h
    obtain ⟨rest, hrest, rfl⟩ := Option.map_eq_some_iff.1 h
    rw [List.isEmpty_iff] at hne
    refine ⟨fun _ => Selection.mergePositions_ne_nil hne rest,
      Selection.nowhereEmptyEach_merge _ _ (Selection.nowhereEmptyEach_iff.2 fun q hq => ?_)
        (nowhereEmpty_of_selectAll fs cs hrest).2⟩
    obtain ⟨c, -, hc⟩ := Selection.exists_of_mem_ofEach hq
    exact nowhereEmpty_of_select f c hc

end

end FilterNode

end YangSubscriptions
