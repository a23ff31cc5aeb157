import YangSubscriptions.Proofs.Filter.Selection

/-!
# Restrictions

A node restricted to a set of paths has what the set holds, in the order of the node. What a selection
cuts out of a node that it fits is the node restricted to the paths it holds (`cut_eq_restrict`).
-/

namespace YangSubscriptions

namespace Node

mutual

/-- The node with only those children, entries and values whose paths are kept. -/
def restrict : (NodePath → Bool) → Node → Node
  | keep, .container n cs => .container n (restrictChildren keep 0 cs)
  | keep, .list n es => .list n (restrictEntries keep 0 es)
  | _, .leaf n v => .leaf n v
  | keep, .leafList n vs => .leafList n (vs.zipIdx.filterMap fun (v, i) => if keep [i] then some v else none)

/-- The children from position `i` on. -/
def restrictChildren : (NodePath → Bool) → Nat → List Node → List Node
  | _, _, [] => []
  | keep, i, c :: cs =>
    if keep [i] then restrict (fun p => keep (i :: p)) c :: restrictChildren keep (i + 1) cs
    else restrictChildren keep (i + 1) cs

/-- The entries from position `i` on. -/
def restrictEntries : (NodePath → Bool) → Nat → List (List Node) → List (List Node)
  | _, _, [] => []
  | keep, i, e :: es =>
    if keep [i] then restrictChildren (fun p => keep (i :: p)) 0 e :: restrictEntries keep (i + 1) es
    else restrictEntries keep (i + 1) es

end

mutual

/-- A node has all its paths. -/
theorem restrict_true (node : Node) : node.restrict (fun _ => true) = node := by
  cases node with
  | container n cs => rw [restrict, restrictChildren_true]
  | list n es => rw [restrict, restrictEntries_true]
  | leaf n v => rfl
  | leafList n vs =>
    have hall : (fun (q : LeafValue × Nat) => if true then some q.1 else none) = some ∘ Prod.fst := rfl
    rw [restrict, hall, List.filterMap_eq_map, List.zipIdx_map_fst]

theorem restrictChildren_true (i : Nat) (cs : List Node) : restrictChildren (fun _ => true) i cs = cs := by
  cases cs with
  | nil => rfl
  | cons c cs => rw [restrictChildren, if_pos rfl, restrict_true c, restrictChildren_true (i + 1) cs]

theorem restrictEntries_true (i : Nat) (es : List (List Node)) : restrictEntries (fun _ => true) i es = es := by
  cases es with
  | nil => rfl
  | cons e es => rw [restrictEntries, if_pos rfl, restrictChildren_true 0 e, restrictEntries_true (i + 1) es]

end

/-! ## One item after another -/

theorem restrictChildren_eq_filterMap (keep : NodePath → Bool) (i : Nat) (cs : List Node) :
    restrictChildren keep i cs = (cs.zipIdx i).filterMap fun (c, i) =>
      if keep [i] then some (c.restrict fun p => keep (i :: p)) else none := by
  induction cs generalizing i with
  | nil => rfl
  | cons c cs ih =>
    rw [restrictChildren, List.zipIdx_cons, List.filterMap_cons, ih]
    cases h : keep [i] with
    | true => simp only [h, if_true]
    | false => simp only [h, Bool.false_eq_true, if_false]

theorem restrictEntries_eq_filterMap (keep : NodePath → Bool) (i : Nat) (es : List (List Node)) :
    restrictEntries keep i es = (es.zipIdx i).filterMap fun (e, i) =>
      if keep [i] then some (restrictChildren (fun p => keep (i :: p)) 0 e) else none := by
  induction es generalizing i with
  | nil => rfl
  | cons e es ih =>
    rw [restrictEntries, List.zipIdx_cons, List.filterMap_cons, ih]
    cases h : keep [i] with
    | true => simp only [h, if_true]
    | false => simp only [h, Bool.false_eq_true, if_false]

theorem cutChildren_eq_filterMap (kept : Positions) (cs : List Node) :
    cutChildren kept cs = kept.filterMap fun q => cs[q.1]?.map (cut q.2) := by
  induction kept with
  | nil => rfl
  | cons q kept ih =>
    obtain ⟨i, s⟩ := q
    rw [cutChildren, List.filterMap_cons, ih]
    cases cs[i]? <;> rfl

theorem cutEntries_eq_filterMap (kept : Positions) (es : List (List Node)) :
    cutEntries kept es = kept.filterMap fun q => es[q.1]?.map (cutEntry q.2) := by
  induction kept with
  | nil => rfl
  | cons q kept ih =>
    obtain ⟨i, s⟩ := q
    rw [cutEntries, List.filterMap_cons, ih]
    cases es[i]? <;> rfl

/-- Taking the items at ascending positions is going through all items and leaving out the others. -/
theorem filterMap_ascending {α β γ : Type} (look : Nat → Option α) {f : γ → α → β} {g : α × Nat → Option β}
    {kept : List (Nat × γ)} {xs : List α} {k : Nat} (hlook : ∀ i, look (k + i) = xs[i]?)
    (hsorted : kept.Pairwise (·.1 < ·.1)) (hfrom : ∀ q ∈ kept, k ≤ q.1)
    (hin : ∀ q ∈ kept, ∀ x, look q.1 = some x → g (x, q.1) = some (f q.2 x))
    (hout : ∀ i x, k ≤ i → (∀ q ∈ kept, q.1 ≠ i) → g (x, i) = none) :
    (kept.filterMap fun q => (look q.1).map (f q.2)) = (xs.zipIdx k).filterMap g := by
  induction xs generalizing k kept with
  | nil =>
    refine List.filterMap_eq_nil_iff.2 fun q hq => ?_
    have hnone := hlook (q.1 - k)
    rw [Nat.add_sub_cancel' (hfrom q hq), List.getElem?_nil] at hnone
    rw [hnone, Option.map_none]
  | cons x xs ih =>
    have hlook' : ∀ i, look (k + 1 + i) = xs[i]? := by
      intro i
      rw [Nat.add_assoc, Nat.add_comm 1 i, hlook, List.getElem?_cons_succ]
    have hx : look k = some x := hlook 0
    rw [List.zipIdx_cons, List.filterMap_cons]
    cases kept with
    | nil =>
      rw [hout k x (Nat.le_refl k) nofun]
      exact ih hlook' .nil nofun nofun fun i y hi => hout i y (by omega)
    | cons q rest =>
      obtain ⟨hlt, hrest⟩ := List.pairwise_cons.1 hsorted
      rcases Nat.eq_or_lt_of_le (hfrom q List.mem_cons_self) with rfl | hq
      · -- the item is taken, and the other positions are behind it
        rw [hin q List.mem_cons_self x hx, List.filterMap_cons, hx]
        have hih := ih hlook' hrest hlt (fun a ha => hin a (List.mem_cons_of_mem _ ha)) fun i y hi hne =>
          hout i y (by omega) fun a ha => by
            rcases List.mem_cons.1 ha with rfl | ha
            · omega
            · exact hne a ha
        rw [Option.map_some, hih]
      · have hall : ∀ a ∈ q :: rest, k < a.1 := by
          intro a ha
          rcases List.mem_cons.1 ha with rfl | ha
          · exact hq
          · exact Nat.lt_trans hq (hlt a ha)
        rw [hout k x (Nat.le_refl k) fun a ha => Nat.ne_of_gt (hall a ha)]
        exact ih hlook' hsorted hall hin fun i y hi => hout i y (by omega)

/-! ## Cutting -/

/-- An entry is cut like a container. -/
theorem cut_container (s : Selection) (n : NodeName) (e : List Node) :
    cut s (.container n e) = .container n (cutEntry s e) := by
  cases s <;> rfl

/-- Cutting the kept items is restricting all items, if cutting one is restricting it. -/
theorem filterMap_kept {α β : Type} {cutOne : Selection → α → β} (restrictOne : (NodePath → Bool) → α → β)
    (keep : NodePath → Bool) {kept : Positions} (h : kept.Pairwise (·.1 < ·.1)) {xs : List α}
    (hone : ∀ q ∈ kept, ∀ x, xs[q.1]? = some x → cutOne q.2 x = restrictOne q.2.holds x)
    (hkeep : ∀ i p, keep (i :: p) = Selection.holdsAt kept i p) :
    (kept.filterMap fun q => xs[q.1]?.map (cutOne q.2)) =
      xs.zipIdx.filterMap fun (x, i) => if keep [i] then some (restrictOne (fun p => keep (i :: p)) x) else none := by
  refine filterMap_ascending (fun i => xs[i]?) (f := cutOne) (k := 0) ?_ h ?_ ?_ ?_
  · intro i
    rw [Nat.zero_add]
  · exact fun q _ => Nat.zero_le q.1
  · intro q hq x hx
    have hbelow : (fun p => keep (q.1 :: p)) = q.2.holds := by
      funext p
      rw [hkeep, Selection.holdsAt_of_mem h hq]
    have hkept : keep [q.1] = true := (congrFun hbelow []).trans q.2.holds_nil
    simp only [hkept, if_true, hbelow, hone q hq x hx]
  · intro i x _ hne
    have hnot : keep [i] = false := (hkeep i []).trans (Selection.holdsAt_of_forall_ne hne [])
    simp only [hnot, Bool.false_eq_true, if_false]

theorem pick_eq_restrict {kept : List Nat} (h : kept.Pairwise (· < ·)) (vs : List LeafValue) :
    pick kept vs = vs.zipIdx.filterMap fun (v, i) => if (Selection.values kept).holds [i] then some v else none := by
  have hpick : pick kept vs = (kept.map fun i => (i, ())).filterMap fun q => vs[q.1]?.map id := by
    rw [List.filterMap_map]
    simp only [Option.map_id, id]
    rfl
  rw [hpick]
  refine filterMap_ascending (fun i => vs[i]?) (f := fun _ => id) (k := 0) ?_ ?_ ?_ ?_ ?_
  · intro i
    rw [Nat.zero_add]
  · exact List.pairwise_map.2 h
  · exact fun q _ => Nat.zero_le q.1
  · intro q hq v _
    obtain ⟨i, hi, rfl⟩ := List.mem_map.1 hq
    simp [Selection.holds, hi]
  · intro i v _ hne
    have hi : i ∉ kept := fun hi => hne (i, ()) (List.mem_map.2 ⟨i, hi, rfl⟩) rfl
    simp [Selection.holds, hi]

mutual

/-- What a selection cuts out of a node that it fits. -/
theorem cut_eq_restrict (s : Selection) {node : Node} (h : s.Fits node) : cut s node = node.restrict s.holds := by
  match s with
  | .whole =>
    have hall : Selection.whole.holds = fun _ => true := by
      funext p
      rw [Selection.holds]
    rw [hall, restrict_true]
    cases node <;> rfl
  | .children kept =>
    obtain ⟨n, cs, rfl, hkept⟩ := Selection.fits_children h
    have hcut := filterMap_kept restrict (Selection.children kept).holds hkept.ascending (cut_each kept hkept)
      fun i p => rfl
    rw [cut, restrict, cutChildren_eq_filterMap, restrictChildren_eq_filterMap, hcut]
  | .entries kept =>
    obtain ⟨n, es, rfl, hkept⟩ := Selection.fits_entries h
    have hentry : ∀ q ∈ kept, ∀ e, es[q.1]? = some e → cutEntry q.2 e = restrictChildren q.2.holds 0 e := by
      intro q hq e he
      have hone := cut_each kept hkept q hq (.container n e) (by rw [List.getElem?_map, he, Option.map_some])
      rw [cut_container, restrict] at hone
      exact (Node.container.inj hone).2
    have hcut := filterMap_kept (fun keep e => restrictChildren keep 0 e) (Selection.entries kept).holds hkept.ascending
      hentry fun i p => rfl
    rw [cut, restrict, cutEntries_eq_filterMap, restrictEntries_eq_filterMap, hcut]
  | .values kept =>
    obtain ⟨n, vs, rfl, hkept, -⟩ := Selection.fits_values h
    rw [cut, restrict, pick_eq_restrict hkept]

theorem cut_each (kept : Positions) {items : List Node} (h : Selection.FitsEach kept items) :
    ∀ q ∈ kept, ∀ item, items[q.1]? = some item → cut q.2 item = item.restrict q.2.holds := by
  match kept with
  | [] => exact nofun
  | (i, s) :: kept =>
    obtain ⟨-, ⟨item, hitem, hs⟩, hkept⟩ := h
    intro q hq item' hitem'
    rcases List.mem_cons.1 hq with rfl | hq
    · obtain rfl : item = item' := Option.some.inj (hitem.symm.trans hitem')
      exact cut_eq_restrict s hs
    · exact cut_each kept hkept q hq item' hitem'

end

end Node

end YangSubscriptions
