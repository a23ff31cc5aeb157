import YangSubscriptions.Filter.Selection

/-!
# What a selection denotes

A selection stands for a set of paths into a node (`holds`): a path goes from a container to a child,
from a list to an entry and on to a child of it, from a leaf-list to a value, by position. A selection
that fits a node names positions that are there, in ascending order (`Fits`). On selections that fit one
node, union is union of paths (`union_spec`), and what is cut out is the node restricted to the paths
(`cut_eq_restrict`).
-/

namespace YangSubscriptions

/-- Positions from a node downwards. -/
abbrev NodePath := List Nat

namespace Selection

mutual

/-- Is the path kept? -/
def holds : Selection → NodePath → Bool
  | .whole, _ => true
  | _, [] => true
  | .children kept, i :: p => holdsAt kept i p
  | .entries kept, i :: p => holdsAt kept i p
  | .values kept, i :: _ => kept.contains i

/-- Is the path kept below one of the positions? -/
def holdsAt : Positions → Nat → NodePath → Bool
  | [], _, _ => false
  | (j, s) :: kept, i, p => (j == i && s.holds p) || holdsAt kept i p

end

mutual

/-- Does the selection name positions of the node, in ascending order? -/
def Fits : Selection → Node → Prop
  | .whole, _ => True
  | .children kept, .container _ cs => FitsEach kept cs
  | .entries kept, .list n es => FitsEach kept (es.map (.container n))
  | .values kept, .leafList _ vs => kept.Pairwise (· < ·) ∧ ∀ i ∈ kept, i < vs.length
  | _, _ => False

/-- The same for positions of items; an entry of a list counts as a container. -/
def FitsEach : Positions → List Node → Prop
  | [], _ => True
  | (i, s) :: kept, items =>
    (∀ q ∈ kept, i < q.1) ∧ (∃ item, items[i]? = some item ∧ s.Fits item) ∧ FitsEach kept items

end

theorem holds_nil (s : Selection) : s.holds [] = true := by
  cases s <;> rfl

theorem holdsAt_append (l r : Positions) (i : Nat) (p : NodePath) :
    holdsAt (l ++ r) i p = (holdsAt l i p || holdsAt r i p) := by
  induction l with
  | nil => rfl
  | cons q l ih => simp only [List.cons_append, holdsAt, ih, Bool.or_assoc]

theorem holdsAt_of_forall_ne {kept : Positions} {i : Nat} (h : ∀ q ∈ kept, q.1 ≠ i) (p : NodePath) :
    holdsAt kept i p = false := by
  induction kept with
  | nil => rfl
  | cons q kept ih =>
    rw [holdsAt, ih fun a ha => h a (List.mem_cons_of_mem _ ha),
      beq_eq_false_iff_ne.2 (h q List.mem_cons_self), Bool.false_and, Bool.or_false]

theorem holdsAt_nil_iff {kept : Positions} {i : Nat} : holdsAt kept i [] = true ↔ ∃ q ∈ kept, q.1 = i := by
  induction kept with
  | nil => simp [holdsAt]
  | cons q kept ih => simp [holdsAt, holds_nil, ih]

theorem fitsEach_append {l r : Positions} {items : List Node} :
    FitsEach (l ++ r) items ↔ FitsEach l items ∧ FitsEach r items ∧ ∀ a ∈ l, ∀ b ∈ r, a.1 < b.1 := by
  induction l with
  | nil => simp [FitsEach]
  | cons q l ih =>
    simp only [List.cons_append, FitsEach, ih, List.mem_append, List.mem_cons, forall_eq_or_imp]
    constructor
    · rintro ⟨hlt, hitem, hl, hr, hlr⟩
      exact ⟨⟨fun a ha => hlt a (.inl ha), hitem, hl⟩, hr, fun b hb => hlt b (.inr hb), hlr⟩
    · rintro ⟨⟨hlt, hitem, hl⟩, hr, hq, hlr⟩
      exact ⟨fun a ha => ha.elim (hlt a) (hq a), hitem, hl, hr, hlr⟩

/-- Positions fit if they ascend and each is that of an item that its selection fits. -/
theorem fitsEach_iff {kept : Positions} {items : List Node} :
    FitsEach kept items ↔
      kept.Pairwise (·.1 < ·.1) ∧ ∀ q ∈ kept, ∃ item, items[q.1]? = some item ∧ q.2.Fits item := by
  induction kept with
  | nil => simp [FitsEach]
  | cons q kept ih =>
    rw [FitsEach, ih, List.pairwise_cons, List.forall_mem_cons]
    constructor
    · rintro ⟨hlt, hitem, hascending, hkept⟩
      exact ⟨⟨hlt, hascending⟩, hitem, hkept⟩
    · rintro ⟨⟨hlt, hascending⟩, hitem, hkept⟩
      exact ⟨hlt, hitem, hascending, hkept⟩

theorem FitsEach.ascending {kept : Positions} {items : List Node} (h : FitsEach kept items) :
    kept.Pairwise (·.1 < ·.1) := (fitsEach_iff.1 h).1

theorem FitsEach.sublist {kept kept' : Positions} {items : List Node} (h : FitsEach kept items)
    (hsub : kept'.Sublist kept) : FitsEach kept' items := by
  obtain ⟨hascending, hkept⟩ := fitsEach_iff.1 h
  exact fitsEach_iff.2 ⟨hascending.sublist hsub, fun q hq => hkept q (hsub.subset hq)⟩

theorem FitsEach.lt_length {kept : Positions} {items : List Node} (h : FitsEach kept items) {q : Nat × Selection}
    (hq : q ∈ kept) : q.1 < items.length := by
  obtain ⟨item, hitem, -⟩ := (fitsEach_iff.1 h).2 q hq
  exact (List.getElem?_eq_some_iff.1 hitem).1

/-- What is selected at the position of an item fits the item. -/
theorem FitsEach.fits_of_find? {kept : Positions} {items : List Node} (h : FitsEach kept items) {i : Nat} {item : Node}
    (hitem : items[i]? = some item) {q : Nat × Selection} (hq : kept.find? (·.1 = i) = some q) : q.2.Fits item := by
  obtain ⟨item', hitem', hfits⟩ := (fitsEach_iff.1 h).2 q (List.mem_of_find?_eq_some hq)
  have hi : q.1 = i := by simpa using List.find?_some hq
  rw [hi] at hitem'
  obtain rfl : item = item' := Option.some.inj (hitem.symm.trans hitem')
  exact hfits

theorem holdsAt_of_mem {kept : Positions} (h : kept.Pairwise (·.1 < ·.1)) {q : Nat × Selection} (hq : q ∈ kept)
    (p : NodePath) : holdsAt kept q.1 p = q.2.holds p := by
  induction kept with
  | nil => cases hq
  | cons a kept ih =>
    obtain ⟨hlt, hkept⟩ := List.pairwise_cons.1 h
    rcases List.mem_cons.1 hq with rfl | hq
    · rw [holdsAt, holdsAt_of_forall_ne fun b hb => Nat.ne_of_gt (hlt b hb), beq_self_eq_true, Bool.true_and,
        Bool.or_false]
    · rw [holdsAt, ih hkept hq, beq_eq_false_iff_ne.2 (Nat.ne_of_lt (hlt q hq)), Bool.false_and, Bool.false_or]

/-! ## Splitting at a position -/

section
variable {α : Type} {key : α → Nat} {i : Nat}

theorem dropWhile_of_lt {r : List α} (h : ∀ a ∈ r, i < key a) : r.dropWhile (key · ≤ i) = r := by
  cases r with
  | nil => rfl
  | cons a r =>
    have ha : ¬ key a ≤ i := Nat.not_le.2 (h a List.mem_cons_self)
    rw [List.dropWhile_cons, if_neg (by simpa using ha)]

theorem takeWhile_of_lt {r : List α} (h : ∀ a ∈ r, i < key a) : r.takeWhile (key · < i) = [] := by
  cases r with
  | nil => rfl
  | cons a r =>
    have ha : ¬ key a < i := Nat.not_lt.2 (Nat.le_of_lt (h a List.mem_cons_self))
    rw [List.takeWhile_cons, if_neg (by simpa using ha)]

theorem find?_of_lt {r : List α} (h : ∀ a ∈ r, i < key a) : r.find? (key · = i) = none := by
  refine List.find?_eq_none.2 fun a ha => ?_
  have := h a ha
  simp only [decide_eq_true_eq]
  omega

/-- An ascending list falls apart into what is before `i`, what is at `i` and what is behind `i`. -/
theorem split_ascending (key : α → Nat) {r : List α} (h : r.Pairwise (key · < key ·)) (i : Nat) :
    r = r.takeWhile (key · < i) ++ ((r.find? (key · = i)).toList ++ r.dropWhile (key · ≤ i)) ∧
      (∀ a ∈ r.takeWhile (key · < i), key a < i) ∧ (∀ a, r.find? (key · = i) = some a → key a = i) ∧
      ∀ a ∈ r.dropWhile (key · ≤ i), i < key a := by
  induction r with
  | nil => simp
  | cons q r ih =>
    obtain ⟨hlt, hr⟩ := List.pairwise_cons.1 h
    rcases Nat.lt_trichotomy (key q) i with hq | rfl | hq
    · obtain ⟨hsplit, hbefore, hat, hbehind⟩ := ih hr
      rw [List.takeWhile_cons, if_pos (by simpa using hq), List.find?_cons_of_neg (by simpa using Nat.ne_of_lt hq),
        List.dropWhile_cons, if_pos (by simpa using Nat.le_of_lt hq), List.cons_append, ← hsplit]
      refine ⟨rfl, fun a ha => ?_, hat, hbehind⟩
      rcases List.mem_cons.1 ha with rfl | ha
      · exact hq
      · exact hbefore a ha
    · rw [List.takeWhile_cons, if_neg (by simp), List.find?_cons_of_pos (by simp), List.dropWhile_cons,
        if_pos (by simp), dropWhile_of_lt hlt]
      exact ⟨rfl, nofun, fun a ha => congrArg key (Option.some.inj ha).symm, hlt⟩
    · have hall : ∀ a ∈ q :: r, i < key a := by
        intro a ha
        rcases List.mem_cons.1 ha with rfl | ha
        · exact hq
        · exact Nat.lt_trans hq (hlt a ha)
      rw [takeWhile_of_lt hall, find?_of_lt hall, dropWhile_of_lt hall]
      exact ⟨rfl, nofun, nofun, hall⟩

end

/-- What is kept below the positions of an ascending list, part by part. -/
theorem holdsAt_split {r : Positions} (h : r.Pairwise (·.1 < ·.1)) (i k : Nat) (p : NodePath) :
    holdsAt r k p = (holdsAt (r.takeWhile (·.1 < i)) k p ||
      (i == k && holdsAt (r.find? (·.1 = i)).toList i p || holdsAt (r.dropWhile (·.1 ≤ i)) k p)) := by
  obtain ⟨hsplit, -, hat, -⟩ := split_ascending Prod.fst h i
  have hfound : holdsAt (r.find? (·.1 = i)).toList k p = (i == k && holdsAt (r.find? (·.1 = i)).toList i p) := by
    cases hfind : r.find? (·.1 = i) with
    | none => simp [holdsAt]
    | some q =>
      have hq : q.1 = i := hat q hfind
      simp [holdsAt, hq]
  rw [← hfound, ← holdsAt_append, ← holdsAt_append, ← hsplit]

/-! ## Unions -/

theorem mem_mergeValues {l r : List Nat} (hr : r.Pairwise (· < ·)) (k : Nat) :
    k ∈ mergeValues l r ↔ k ∈ l ∨ k ∈ r := by
  induction l generalizing r with
  | nil => simp [mergeValues]
  | cons i l ih =>
    obtain ⟨hsplit, -, hat, -⟩ := split_ascending (fun a => a) hr i
    have hmem : k ∈ r ↔ k ∈ r.takeWhile (· < i) ++ ((r.find? (· = i)).toList ++ r.dropWhile (· ≤ i)) := by
      rw [← hsplit]
    rw [List.mem_append, List.mem_append, Option.mem_toList] at hmem
    rw [mergeValues, List.mem_append, List.mem_cons, ih (hr.sublist (List.dropWhile_sublist _)), hmem, List.mem_cons]
    constructor
    · rintro (h | h | h | h)
      · exact .inr (.inl h)
      · exact .inl (.inl h)
      · exact .inl (.inr h)
      · exact .inr (.inr (.inr h))
    · rintro ((h | h) | h | h | h)
      · exact .inr (.inl h)
      · exact .inr (.inr (.inl h))
      · exact .inl h
      · exact .inr (.inl (hat k h))
      · exact .inr (.inr (.inr h))

theorem pairwise_mergeValues {l r : List Nat} (hl : l.Pairwise (· < ·)) (hr : r.Pairwise (· < ·)) :
    (mergeValues l r).Pairwise (· < ·) := by
  induction l generalizing r with
  | nil => exact hr
  | cons i l ih =>
    obtain ⟨-, hbefore, -, hbehind⟩ := split_ascending (fun a => a) hr i
    obtain ⟨hi, hl⟩ := List.pairwise_cons.1 hl
    have hdrop : (r.dropWhile (· ≤ i)).Pairwise (· < ·) := hr.sublist (List.dropWhile_sublist _)
    have hlater : ∀ k ∈ mergeValues l (r.dropWhile (· ≤ i)), i < k := by
      intro k hk
      rcases (mem_mergeValues hdrop k).1 hk with hk | hk
      · exact hi k hk
      · exact hbehind k hk
    rw [mergeValues]
    refine List.pairwise_append.2 ⟨hr.sublist (List.takeWhile_sublist _), .cons hlater (ih hl hdrop), ?_⟩
    intro a ha b hb
    rcases List.mem_cons.1 hb with rfl | hb
    · exact hbefore a ha
    · exact Nat.lt_trans (hbefore a ha) (hlater b hb)

theorem fits_children {kept : Positions} {node : Node} (h : (children kept).Fits node) :
    ∃ n cs, node = .container n cs ∧ FitsEach kept cs := by
  cases node with
  | container n cs => exact ⟨n, cs, rfl, h⟩
  | _ => cases h

theorem fits_entries {kept : Positions} {node : Node} (h : (entries kept).Fits node) :
    ∃ n es, node = .list n es ∧ FitsEach kept (es.map (.container n)) := by
  cases node with
  | list n es => exact ⟨n, es, rfl, h⟩
  | _ => cases h

theorem fits_values {kept : List Nat} {node : Node} (h : (values kept).Fits node) :
    ∃ n vs, node = .leafList n vs ∧ kept.Pairwise (· < ·) ∧ ∀ i ∈ kept, i < vs.length := by
  cases node with
  | leafList n vs => exact ⟨n, vs, rfl, h⟩
  | _ => cases h

/-- Do the selections name parts of one kind, as far as they are partial? -/
def SameShape : Selection → Selection → Bool
  | .whole, _ | _, .whole => true
  | .children _, .children _ | .entries _, .entries _ | .values _, .values _ => true
  | _, _ => false

theorem sameShape_of_fits {s t : Selection} {node : Node} (hs : s.Fits node) (ht : t.Fits node) :
    s.SameShape t = true := by
  cases s with
  | whole => rfl
  | children l =>
    obtain ⟨n, cs, rfl, -⟩ := fits_children hs
    cases t with
    | whole | children r => rfl
    | entries r | values r => cases ht
  | entries l =>
    obtain ⟨n, es, rfl, -⟩ := fits_entries hs
    cases t with
    | whole | entries r => rfl
    | children r | values r => cases ht
  | values l =>
    obtain ⟨n, vs, rfl, -⟩ := fits_values hs
    cases t with
    | whole | values r => rfl
    | children r | entries r => cases ht

/-- The union of a selection with what others select at its position. -/
def unionAt (s : Selection) (r : Positions) (i : Nat) : Selection :=
  match r.find? (·.1 = i) with
  | some (_, t) => s.union t
  | none => s

theorem mergePositions_cons (i : Nat) (s : Selection) (l r : Positions) :
    mergePositions ((i, s) :: l) r =
      r.takeWhile (·.1 < i) ++ (i, s.unionAt r i) :: mergePositions l (r.dropWhile (·.1 ≤ i)) := rfl

/-- A merge has no positions of its own. -/
theorem position_of_mem_mergePositions {l r : Positions} {q : Nat × Selection} (hq : q ∈ mergePositions l r) :
    (∃ a ∈ l, a.1 = q.1) ∨ ∃ b ∈ r, b.1 = q.1 := by
  induction l generalizing r with
  | nil => exact .inr ⟨q, hq, rfl⟩
  | cons a l ih =>
    rw [mergePositions_cons] at hq
    rcases List.mem_append.1 hq with hq | hq
    · exact .inr ⟨q, (List.takeWhile_sublist _).subset hq, rfl⟩
    · rcases List.mem_cons.1 hq with rfl | hq
      · exact .inl ⟨a, List.mem_cons_self, rfl⟩
      · rcases ih hq with ⟨b, hb, he⟩ | ⟨b, hb, he⟩
        · exact .inl ⟨b, List.mem_cons_of_mem _ hb, he⟩
        · exact .inr ⟨b, (List.dropWhile_sublist _).subset hb, he⟩

mutual

/-- The union of selections that fit a node fits it and keeps what either keeps. -/
theorem union_spec (s t : Selection) {node : Node} (hs : s.Fits node) (ht : t.Fits node) :
    (s.union t).Fits node ∧ ∀ p, (s.union t).holds p = (s.holds p || t.holds p) := by
  match s, t with
  | .whole, t =>
    have hwhole : whole.union t = .whole := by cases t <;> rfl
    rw [hwhole]
    exact ⟨trivial, fun p => by simp [holds]⟩
  | s, .whole =>
    have hwhole : s.union .whole = .whole := by cases s <;> rfl
    rw [hwhole]
    exact ⟨trivial, fun p => by simp [holds]⟩
  | .children l, .children r =>
    obtain ⟨n, cs, rfl, hl⟩ := fits_children hs
    obtain ⟨hfits, hholds⟩ := mergePositions_spec l r hl ht
    refine ⟨hfits, fun p => ?_⟩
    cases p with
    | nil => rfl
    | cons i p => exact hholds i p
  | .entries l, .entries r =>
    obtain ⟨n, es, rfl, hl⟩ := fits_entries hs
    obtain ⟨hfits, hholds⟩ := mergePositions_spec l r hl ht
    refine ⟨hfits, fun p => ?_⟩
    cases p with
    | nil => rfl
    | cons i p => exact hholds i p
  | .values l, .values r =>
    obtain ⟨n, vs, rfl, hl, hinl⟩ := fits_values hs
    obtain ⟨hr, hinr⟩ := ht
    refine ⟨⟨pairwise_mergeValues hl hr, fun i hi => ?_⟩, fun p => ?_⟩
    · rcases (mem_mergeValues hr i).1 hi with hi | hi
      · exact hinl i hi
      · exact hinr i hi
    · cases p with
      | nil => rfl
      | cons i p =>
        rw [Bool.eq_iff_iff]
        simp only [union, holds, List.contains_iff_mem, Bool.or_eq_true, mem_mergeValues hr]
  | .children _, .entries _ | .children _, .values _ | .entries _, .children _ | .entries _, .values _
  | .values _, .children _ | .values _, .entries _ => cases sameShape_of_fits hs ht

theorem unionAt_spec (s : Selection) (r : Positions) (i : Nat) {item : Node} (hs : s.Fits item)
    (hr : ∀ t, r.find? (·.1 = i) = some (i, t) → t.Fits item) (hat : ∀ q, r.find? (·.1 = i) = some q → q.1 = i) :
    (s.unionAt r i).Fits item ∧ ∀ p, (s.unionAt r i).holds p = (s.holds p || holdsAt (r.find? (·.1 = i)).toList i p) := by
  unfold unionAt
  cases hfind : r.find? (·.1 = i) with
  | none => exact ⟨hs, fun p => by simp [holdsAt]⟩
  | some q =>
    obtain ⟨j, t⟩ := q
    obtain rfl : j = i := hat _ hfind
    obtain ⟨hfits, hunion⟩ := union_spec s t hs (hr t hfind)
    exact ⟨hfits, fun p => by simp [hunion, holdsAt]⟩

theorem mergePositions_spec (l r : Positions) {items : List Node} (hl : FitsEach l items) (hr : FitsEach r items) :
    FitsEach (mergePositions l r) items ∧
      ∀ i p, holdsAt (mergePositions l r) i p = (holdsAt l i p || holdsAt r i p) := by
  match l with
  | [] => exact ⟨hr, fun i p => rfl⟩
  | (i, s) :: l =>
    have hascending := hr.ascending
    obtain ⟨-, hbefore, hat, hbehind⟩ := split_ascending Prod.fst hascending i
    obtain ⟨hgt, ⟨item, hitem, hs⟩, hl⟩ := hl
    obtain ⟨hmerged, hholds⟩ := mergePositions_spec l _ hl (hr.sublist (List.dropWhile_sublist _))
    have hlater : ∀ q ∈ mergePositions l (r.dropWhile (·.1 ≤ i)), i < q.1 := by
      intro q hq
      rcases position_of_mem_mergePositions hq with ⟨b, hb, he⟩ | ⟨b, hb, he⟩
      · exact he ▸ hgt b hb
      · exact he ▸ hbehind b hb
    obtain ⟨hhere, hholdsHere⟩ := unionAt_spec s r i hs (fun t ht => hr.fits_of_find? hitem ht) hat
    rw [mergePositions_cons]
    refine ⟨fitsEach_append.2 ⟨hr.sublist (List.takeWhile_sublist _), ⟨hlater, ⟨item, hitem, hhere⟩, hmerged⟩, ?_⟩, ?_⟩
    · intro b hb q hq
      rcases List.mem_cons.1 hq with rfl | hq
      · exact hbefore b hb
      · exact Nat.lt_trans (hbefore b hb) (hlater q hq)
    · intro k p
      rw [holdsAt_append, holdsAt_split hascending i k p]
      simp only [holdsAt, hholds, hholdsHere, Bool.and_or_distrib_left]
      ac_rfl

end

end Selection

end YangSubscriptions
