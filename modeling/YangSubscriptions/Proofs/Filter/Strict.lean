import YangSubscriptions.Proofs.Except
import YangSubscriptions.Proofs.Filter.Unions

/-!
# Selections in shape

A union takes the whole node where the united selections differ in shape; a cut passes over positions that are
not there and copies a node that the selection is not made for. The strict evaluation of a filter stops at each
of these instead (`Misfit`), and otherwise does the same. It never stops: what is selected of a node, and every
union of such selections, fits the node at every depth (`selections_fit`).
-/

namespace YangSubscriptions

/-- Why the strict evaluation stops. -/
inductive Misfit where
  /-- Selections of different shapes are united. -/
  | shapes
  /-- Nothing is at the position. -/
  | position
  /-- A selection of some parts is made for another kind of node. -/
  | kind
  deriving DecidableEq, Repr

namespace Selection

mutual

/-- The union of selections of one shape. -/
def unionStrict : Selection → Selection → Except Misfit Selection
  | .whole, _ => .ok .whole
  | _, .whole => .ok .whole
  | .children l, .children r => return .children (← mergeStrict l r)
  | .entries l, .entries r => return .entries (← mergeStrict l r)
  | .values l, .values r => return .values (mergeValues l r)
  | _, _ => .error .shapes

def mergeStrict : Positions → Positions → Except Misfit Positions
  | [], r => .ok r
  | (i, s) :: l, r => do
    let here ← match r.find? (·.1 = i) with
      | some (_, t) => unionStrict s t
      | none => .ok s
    return r.takeWhile (·.1 < i) ++ (i, here) :: (← mergeStrict l (r.dropWhile (·.1 ≤ i)))

end

end Selection

namespace FilterNode

mutual

/-- What a filter node keeps of a node, all unions being strict. -/
def selectStrict : FilterNode → Node → Except Misfit (Option Selection)
  | .content n t, node => .ok ((content n t).select node)
  | .containment n fs, node =>
    if n.Matches node.name then
      if fs.isEmpty then .ok (some .whole)
      else
        match node with
        | .leaf _ _ | .leafList _ _ => .ok none
        | .container _ cs => selectSiblingsStrict fs (fs.all isContent) cs
        | .list _ es => do
          let kept ← es.zipIdx.filterMapM fun (e, i) =>
            return (← selectSiblingsStrict fs (fs.all isContent) e).map (i, ·)
          return ofKept .entries kept
    else .ok none

def selectSiblingsStrict (fs : List FilterNode) (contentOnly : Bool) (cs : List Node) :
    Except Misfit (Option Selection) :=
  return (← selectAllStrict fs cs).map fun kept => if contentOnly then .whole else .children kept

def selectAllStrict : List FilterNode → List Node → Except Misfit (Option Positions)
  | [], _ => .ok (some [])
  | f :: fs, cs => do
    let kept ← cs.zipIdx.filterMapM fun (c, i) => return (← selectStrict f c).map (i, ·)
    if kept.isEmpty then return none else (← selectAllStrict fs cs).mapM (Selection.mergeStrict kept)

end

end FilterNode

namespace Node

/-- The values at the positions, all of which have to be there. -/
def pickStrict (kept : List Nat) (vs : List LeafValue) : Except Misfit (List LeafValue) :=
  kept.mapM fun i => match vs[i]? with
    | some v => .ok v
    | none => .error .position

mutual

/-- The kept part of a node for which the selection is made. -/
def cutStrict : Selection → Node → Except Misfit Node
  | .whole, node => .ok node
  | .children kept, .container n cs => return .container n (← cutChildrenStrict kept cs)
  | .entries kept, .list n es => return .list n (← cutEntriesStrict kept es)
  | .values kept, .leafList n vs => return .leafList n (← pickStrict kept vs)
  | _, _ => .error .kind

def cutChildrenStrict : Positions → List Node → Except Misfit (List Node)
  | [], _ => .ok []
  | (i, s) :: kept, cs =>
    match cs[i]? with
    | some c => return (← cutStrict s c) :: (← cutChildrenStrict kept cs)
    | none => .error .position

def cutEntriesStrict : Positions → List (List Node) → Except Misfit (List (List Node))
  | [], _ => .ok []
  | (i, s) :: kept, es =>
    match es[i]? with
    | some e => return (← cutEntryStrict s e) :: (← cutEntriesStrict kept es)
    | none => .error .position

def cutEntryStrict : Selection → List Node → Except Misfit (List Node)
  | .whole, e => .ok e
  | .children kept, e => cutChildrenStrict kept e
  | _, _ => .error .kind

end

end Node

/-- The kept part of a body that is accepted, all unions and cuts being strict. -/
def SubtreeFilter.pruneStrict (f : SubtreeFilter) (body : Node) : Except Misfit (Option Node) :=
  if f.isEmpty then .ok (some body)
  else do
    match ← f.roots.filterMapM (·.selectStrict body) with
    | [] => return none
    | s :: ss => return some (← Node.cutStrict (← ss.foldlM Selection.unionStrict s) body)

/-! ## Strict unions -/

namespace Selection

mutual

theorem unionStrict_eq (s t : Selection) {node : Node} (hs : s.Fits node) (ht : t.Fits node) :
    s.unionStrict t = .ok (s.union t) := by
  match s, t with
  | .whole, t => cases t <;> rfl
  | s, .whole => cases s <;> rfl
  | .children l, .children r =>
    obtain ⟨n, cs, rfl, hl⟩ := fits_children hs
    rw [unionStrict, mergeStrict_eq l r hl ht]
    rfl
  | .entries l, .entries r =>
    obtain ⟨n, es, rfl, hl⟩ := fits_entries hs
    rw [unionStrict, mergeStrict_eq l r hl ht]
    rfl
  | .values l, .values r => rfl
  | .children _, .entries _ | .children _, .values _ | .entries _, .children _ | .entries _, .values _
  | .values _, .children _ | .values _, .entries _ => cases sameShape_of_fits hs ht

theorem mergeStrict_eq (l r : Positions) {items : List Node} (hl : FitsEach l items) (hr : FitsEach r items) :
    mergeStrict l r = .ok (mergePositions l r) := by
  match l with
  | [] => rfl
  | (i, s) :: l =>
    obtain ⟨-, ⟨item, hitem, hs⟩, hl⟩ := hl
    have hlater := mergeStrict_eq l _ hl (hr.sublist (List.dropWhile_sublist (·.1 ≤ i)))
    rw [mergeStrict, mergePositions, hlater]
    cases hfind : r.find? (·.1 = i) with
    | none => rfl
    | some q =>
      dsimp only
      rw [unionStrict_eq s q.2 hs (hr.fits_of_find? hitem hfind)]
      rfl

end

/-- Below one position, selections of a container and of a leaf-list meet. -/
example : unionStrict (.children [(0, .children [(1, .whole)])]) (.children [(0, .values [1]), (2, .whole)]) =
    .error .shapes := rfl

/-- The strict union of several selections of a node. -/
theorem foldlM_unionStrict {node : Node} {s : Selection} (hs : s.Fits node) {ss : List Selection}
    (hss : ∀ t ∈ ss, t.Fits node) : ss.foldlM unionStrict s = .ok (ss.foldl union s) := by
  induction ss generalizing s with
  | nil => rfl
  | cons t ss ih =>
    have ht := hss t List.mem_cons_self
    rw [List.foldlM_cons, unionStrict_eq s t hs ht]
    exact ih (union_spec s t hs ht).1 fun u hu => hss u (List.mem_cons_of_mem _ hu)

/-- Strict selections of items, each at its position. -/
theorem ofEach_eq_ok {α : Type} {strict : α → Except Misfit (Option Selection)} {select : α → Option Selection}
    (h : ∀ x, strict x = .ok (select x)) (xs : List α) :
    (xs.zipIdx.filterMapM fun (x, i) => return (← strict x).map (i, ·)) = .ok (ofEach select 0 xs) := by
  refine filterMapM_eq_ok fun q _ => ?_
  obtain ⟨x, i⟩ := q
  dsimp only
  rw [h]
  rfl

end Selection

/-! ## Strict selection -/

namespace FilterNode

open Selection (FitsEach)

theorem fits_of_select {f : FilterNode} {node : Node} {s : Selection} (h : f.select node = some s) : s.Fits node := by
  have hdescribes := f.select_spec node
  rw [h] at hdescribes
  exact hdescribes.2.1

theorem fitsEach_of_selectAll {fs : List FilterNode} {cs : List Node} {kept : Positions}
    (h : selectAll fs cs = some kept) : FitsEach kept cs := by
  have hdescribes := selectAll_spec fs cs
  rw [h] at hdescribes
  exact hdescribes.2.1

/-- What a filter node selects of each sibling is at the position of the sibling. -/
theorem fitsEach_select (f : FilterNode) (cs : List Node) : FitsEach (Selection.ofEach f.select 0 cs) cs :=
  (Selection.ofEach_spec (fun c => c) cs cs (k := 0) (fun c _ => f.select_spec c)
    fun i c hc => by rw [Nat.zero_add, hc]).2.1

mutual

theorem selectStrict_eq (f : FilterNode) (node : Node) : f.selectStrict node = .ok (f.select node) := by
  match f with
  | .content n t => rw [selectStrict]
  | .containment n fs =>
    have hsiblings : ∀ contentOnly cs,
        selectSiblingsStrict fs contentOnly cs = .ok (selectSiblings fs contentOnly cs) := by
      intro contentOnly cs
      rw [selectSiblingsStrict, selectAllStrict_eq fs cs, selectSiblings]
      rfl
    unfold selectStrict select
    split
    · split
      · rfl
      · cases node with
        | leaf m v | leafList m vs => rfl
        | container m cs => exact hsiblings _ cs
        | list m es =>
          dsimp only
          rw [Selection.ofEach_eq_ok (hsiblings _)]
          rfl
    · rfl

theorem selectAllStrict_eq (fs : List FilterNode) (cs : List Node) :
    selectAllStrict fs cs = .ok (selectAll fs cs) := by
  match fs with
  | [] => rw [selectAllStrict, selectAll]
  | f :: fs =>
    have hmerge : (selectAll fs cs).mapM (Selection.mergeStrict (Selection.ofEach f.select 0 cs)) =
        .ok ((selectAll fs cs).map (Selection.mergePositions (Selection.ofEach f.select 0 cs))) := by
      cases hall : selectAll fs cs with
      | none => rfl
      | some kept =>
        rw [Option.mapM_some, Selection.mergeStrict_eq _ kept (fitsEach_select f cs) (fitsEach_of_selectAll hall)]
        rfl
    rw [selectAllStrict, selectAll]
    refine ok_of_bind (Selection.ofEach_eq_ok (selectStrict_eq f) cs) ?_
    show _ = Except.ok (if (Selection.ofEach f.select 0 cs).isEmpty then none else _)
    split
    · rfl
    · exact ok_of_bind (selectAllStrict_eq fs cs) hmerge

end

end FilterNode

/-! ## Strict cuts -/

namespace Node

open Selection (FitsEach)

theorem pickStrict_eq {kept : List Nat} {vs : List LeafValue} (h : ∀ i ∈ kept, i < vs.length) :
    pickStrict kept vs = .ok (pick kept vs) := by
  induction kept with
  | nil => rfl
  | cons i kept ih =>
    have hi := List.getElem?_eq_getElem (h i List.mem_cons_self)
    have hlater := ih fun j hj => h j (List.mem_cons_of_mem _ hj)
    unfold pickStrict pick at hlater ⊢
    rw [List.mapM_cons, hlater, List.filterMap_cons, hi]
    rfl

mutual

theorem cutStrict_eq (s : Selection) {node : Node} (h : s.Fits node) : cutStrict s node = .ok (cut s node) := by
  match s with
  | .whole => cases node <;> rfl
  | .children kept =>
    obtain ⟨n, cs, rfl, hkept⟩ := Selection.fits_children h
    rw [cutStrict, cutChildrenStrict_eq kept hkept]
    rfl
  | .entries kept =>
    obtain ⟨n, es, rfl, hkept⟩ := Selection.fits_entries h
    rw [cutStrict, cutEntriesStrict_eq kept n hkept]
    rfl
  | .values kept =>
    obtain ⟨n, vs, rfl, -, hin⟩ := Selection.fits_values h
    rw [cutStrict, pickStrict_eq hin]
    rfl

theorem cutChildrenStrict_eq (kept : Positions) {cs : List Node} (h : FitsEach kept cs) :
    cutChildrenStrict kept cs = .ok (cutChildren kept cs) := by
  match kept with
  | [] => rfl
  | (i, s) :: kept =>
    obtain ⟨-, ⟨c, hc, hs⟩, hkept⟩ := h
    rw [cutChildrenStrict, cutChildren, hc]
    dsimp only
    rw [cutStrict_eq s hs, cutChildrenStrict_eq kept hkept]
    rfl

theorem cutEntriesStrict_eq (kept : Positions) (n : NodeName) {es : List (List Node)}
    (h : FitsEach kept (es.map (.container n))) : cutEntriesStrict kept es = .ok (cutEntries kept es) := by
  match kept with
  | [] => rfl
  | (i, s) :: kept =>
    obtain ⟨-, ⟨item, hitem, hs⟩, hkept⟩ := h
    rw [List.getElem?_map] at hitem
    obtain ⟨e, he, rfl⟩ := Option.map_eq_some_iff.1 hitem
    rw [cutEntriesStrict, cutEntries, he]
    dsimp only
    rw [cutEntryStrict_eq s hs, cutEntriesStrict_eq kept n hkept]
    rfl

theorem cutEntryStrict_eq (s : Selection) {n : NodeName} {e : List Node} (h : s.Fits (.container n e)) :
    cutEntryStrict s e = .ok (cutEntry s e) := by
  match s with
  | .whole => rfl
  | .children kept => exact cutChildrenStrict_eq kept h
  | .entries kept | .values kept => cases h

end

example : cutStrict (.children [(0, .values [1])]) (.container (.bare "a") [.leafList (.bare "b") [.bool true]]) =
    .error .position := rfl

end Node

/-! ## Filters -/

theorem SubtreeFilter.pruneStrict_eq (f : SubtreeFilter) (body : Node) :
    f.pruneStrict body = .ok (f.prune body) := by
  have hselected : f.roots.filterMapM (·.selectStrict body) = .ok (f.roots.filterMap (·.select body)) :=
    filterMapM_eq_ok fun r _ => r.selectStrict_eq body
  have hfits : ∀ s ∈ f.roots.filterMap (·.select body), s.Fits body := by
    intro s hs
    obtain ⟨r, -, hr⟩ := List.mem_filterMap.1 hs
    exact FilterNode.fits_of_select hr
  unfold pruneStrict prune selection?
  split
  · rfl
  · refine ok_of_bind hselected ?_
    cases hss : f.roots.filterMap (·.select body) with
    | nil => rfl
    | cons s ss =>
      rw [hss] at hfits
      obtain ⟨hs, hss⟩ := List.forall_mem_cons.1 hfits
      exact ok_of_bind (Selection.foldlM_unionStrict hs hss)
        (ok_of_bind (Node.cutStrict_eq _ (foldl_union_spec hs hss).1) rfl)

namespace Selection

/-- The selections of a node: what filter nodes select of it, and unions of such selections. -/
inductive Arises (node : Node) : Selection → Prop where
  | select {f : FilterNode} {s : Selection} (h : f.select node = some s) : Arises node s
  | union {s t : Selection} (hs : Arises node s) (ht : Arises node t) : Arises node (s.union t)

theorem Arises.fits {node : Node} {s : Selection} (h : Arises node s) : s.Fits node := by
  induction h with
  | select h => exact FilterNode.fits_of_select h
  | union _ _ hs ht => exact (union_spec _ _ hs ht).1

theorem Arises.nowhereEmpty {node : Node} {s : Selection} (h : Arises node s) : s.NowhereEmpty := by
  induction h with
  | select h => exact FilterNode.nowhereEmpty_of_select _ _ h
  | union _ _ hs ht => exact nowhereEmpty_union _ _ hs ht

/-- What arises as a selection of a node has the shape of the node at every depth, at positions that are there, and
is nowhere empty. Its unions never meet selections of different shapes and are commutative, associative and
idempotent, and cutting it out never passes over a position or copies a node of another kind. So the strict evaluation
of any filter is the plain one. -/
theorem selections_fit (node : Node) :
    (∀ s, Arises node s → s.Fits node ∧ s.NowhereEmpty ∧ s.union s = s ∧ node.cutStrict s = .ok (node.cut s)) ∧
    (∀ s t, Arises node s → Arises node t → s.unionStrict t = .ok (s.union t) ∧ s.union t = t.union s) ∧
    (∀ s t u, Arises node s → Arises node t → Arises node u → (s.union t).union u = s.union (t.union u)) ∧
    ∀ f : SubtreeFilter, f.pruneStrict node = .ok (f.prune node) :=
  ⟨fun s hs => ⟨hs.fits, hs.nowhereEmpty, union_self hs.fits, Node.cutStrict_eq s hs.fits⟩,
    fun s t hs ht => ⟨unionStrict_eq s t hs.fits ht.fits, union_comm hs.fits ht.fits⟩,
    fun _ _ _ hs ht hu => union_assoc hs.fits ht.fits hu.fits, fun f => f.pruneStrict_eq node⟩

/-- Entries that one filter node takes whole are united with some of their children and values that others take. -/
theorem selections_fit_entries :
    let entry (id : String) (tags : List String) : List Node :=
      [.text "id" id, .leafList (.bare "tag") (tags.map .string)]
    let node : Node := .list (.bare "entry") [entry "1" ["new", "old"], entry "2" ["old"]]
    let each (fs : List FilterNode) : FilterNode := .containment (.bare "entry") fs
    let first : FilterNode := each [.content (.bare "id") "1"]
    let old : FilterNode := each [.selection (.bare "id"), .content (.bare "tag") "old"]
    let tagged : FilterNode := each [.selection (.bare "tag")]
    let s : Selection := .entries [(0, .whole)]
    let t : Selection :=
      .entries [(0, .children [(0, .whole), (1, .values [1])]), (1, .children [(0, .whole), (1, .values [0])])]
    let u : Selection := .entries [(0, .children [(1, .whole)]), (1, .children [(1, .whole)])]
    let both : Selection := .entries [(0, .whole), (1, .children [(0, .whole), (1, .values [0])])]
    let f : SubtreeFilter := ⟨[first, old]⟩
    (first.select node = some s ∧ old.select node = some t ∧ tagged.select node = some u ∧ s.union t = both) ∧
      both.Fits node ∧ both.NowhereEmpty ∧ both.union both = both ∧ node.cutStrict both = .ok (node.cut both) ∧
      s.unionStrict t = .ok both ∧ t.union s = both ∧ both.union u = s.union (t.union u) ∧
      f.pruneStrict node = .ok (f.prune node) := by
  intro entry node each first old tagged s t u both f
  have hs : first.select node = some s := by cbv
  have ht : old.select node = some t := by
    simp [old, each, node, entry, t, FilterNode.select, FilterNode.selectSiblings, FilterNode.selectAll,
      FilterNode.keptValues, FilterNode.ofKept, FilterNode.selection, FilterNode.isContent, NodeName.Matches,
      NodeName.bare, Node.text, Node.name, LeafValue.text, mergePositions]
  have hu : tagged.select node = some u := by cbv
  have hboth : s.union t = both := rfl
  obtain ⟨hone, htwo, hthree, hfilter⟩ := selections_fit node
  obtain ⟨hfits, hempty, hself, hcut⟩ := hone both (.union (.select hs) (.select ht))
  obtain ⟨hstrict, hcomm⟩ := htwo s t (.select hs) (.select ht)
  exact ⟨⟨hs, ht, hu, hboth⟩, hfits, hempty, hself, hcut, hstrict, hcomm.symm,
    hthree s t u (.select hs) (.select ht) (.select hu), hfilter f⟩

end Selection

end YangSubscriptions
