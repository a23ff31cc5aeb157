import Mathlib.Data.List.Permutation
import YangSubscriptions.Proofs.Filter.Subtree

/-!
# Pruning what was pruned

A filter accepts what it left of a body, and leaves that as it is; and it accepts no part of a body that it rejects
(`pruning_settles`). Filter nodes are satisfied by presence alone, so a part never satisfies more than the whole
(`isSatisfied_of_restrict`). What several filter nodes keep together still satisfies each of them and is kept again
(`Settled`). That goes down the tree for all sets of filter nodes that a node satisfies: what is left of a child is what
the children of all of them keep that it satisfies, and by the same law it satisfies neither more nor fewer afterwards.
-/

namespace YangSubscriptions

namespace Node

@[simp] theorem name_restrict (keep : NodePath → Bool) (node : Node) : (node.restrict keep).name = node.name := by
  cases node <;> rfl

/-! ## Items of a restriction -/

theorem exists_of_mem_restrictChildren {keep : NodePath → Bool} {cs : List Node} {c' : Node}
    (h : c' ∈ restrictChildren keep 0 cs) : ∃ c ∈ cs, ∃ keep', c' = c.restrict keep' := by
  rw [restrictChildren_eq_filterMap] at h
  obtain ⟨q, hq, hc'⟩ := List.mem_filterMap.1 h
  obtain ⟨-, hc'⟩ := Option.ite_none_right_eq_some.1 hc'
  exact ⟨q.1, List.fst_mem_of_mem_zipIdx hq, _, (Option.some.inj hc').symm⟩

theorem exists_of_mem_restrictEntries {keep : NodePath → Bool} {es : List (List Node)} {e' : List Node}
    (h : e' ∈ restrictEntries keep 0 es) : ∃ e ∈ es, ∃ keep', e' = restrictChildren keep' 0 e := by
  rw [restrictEntries_eq_filterMap] at h
  obtain ⟨q, hq, he'⟩ := List.mem_filterMap.1 h
  obtain ⟨-, he'⟩ := Option.ite_none_right_eq_some.1 he'
  exact ⟨q.1, List.fst_mem_of_mem_zipIdx hq, _, (Option.some.inj he').symm⟩

section
variable {α β : Type} {g : α × Nat → Option β}

/-- Where what becomes of an item depends on the item alone, its position does not matter. -/
theorem filterMap_zipIdx {own : α → Option β} {xs : List α} (h : ∀ i x, xs[i]? = some x → g (x, i) = own x) :
    xs.zipIdx.filterMap g = xs.filterMap own := by
  have hown : xs.zipIdx.filterMap g = xs.zipIdx.filterMap (own ∘ Prod.fst) :=
    List.filterMap_congr fun q hq => h q.2 q.1 (List.mem_zipIdx_iff_getElem?.1 hq)
  rw [hown, ← List.filterMap_map, List.zipIdx_map_fst]

end

/-- What is kept of a child depends on the child alone. -/
theorem restrictChildren_eq_own {keep : NodePath → Bool} {own : Node → NodePath → Bool} {cs : List Node}
    (h : ∀ i c, cs[i]? = some c → ∀ p, keep (i :: p) = own c p) :
    restrictChildren keep 0 cs = cs.filterMap fun c => if own c [] then some (c.restrict (own c)) else none := by
  rw [restrictChildren_eq_filterMap]
  refine filterMap_zipIdx fun i c hc => ?_
  simp only [h i c hc]

/-- What is kept of an entry depends on the entry alone. -/
theorem restrictEntries_eq_own {keep : NodePath → Bool} {own : List Node → NodePath → Bool} {es : List (List Node)}
    (h : ∀ i e, es[i]? = some e → ∀ p, keep (i :: p) = own e p) :
    restrictEntries keep 0 es =
      es.filterMap fun e => if own e [] then some (restrictChildren (own e) 0 e) else none := by
  rw [restrictEntries_eq_filterMap]
  refine filterMap_zipIdx fun i e he => ?_
  simp only [h i e he]

end Node

namespace FilterNode

open Node (restrictChildren restrictEntries)

/-! ## Parts of a body -/

mutual

/-- What a part of a node satisfies, the node satisfies. -/
theorem isSatisfied_of_restrict (f : FilterNode) (node : Node) (keep : NodePath → Bool)
    (h : f.isSatisfied (node.restrict keep) = true) : f.isSatisfied node = true := by
  match f with
  | .content n t =>
    simp only [isSatisfied, Bool.and_eq_true, Node.name_restrict] at h ⊢
    refine ⟨h.1, ?_⟩
    cases node with
    | leafList m vs =>
      obtain ⟨v, hv, ht⟩ := List.any_eq_true.1 h.2
      obtain ⟨q, hq, hv⟩ := List.mem_filterMap.1 hv
      obtain ⟨-, hv⟩ := Option.ite_none_right_eq_some.1 hv
      exact List.any_eq_true.2 ⟨q.1, List.fst_mem_of_mem_zipIdx hq, Option.some.inj hv ▸ ht⟩
    | leaf m v => exact h.2
    | container m cs => cases h.2
    | list m es => cases h.2
  | .containment n fs =>
    simp only [isSatisfied, Bool.and_eq_true, Bool.or_eq_true, Node.name_restrict] at h ⊢
    refine ⟨h.1, h.2.imp_right fun hbelow => ?_⟩
    cases node with
    | container m cs => exact areSatisfied_of_restrict fs cs keep hbelow
    | list m es =>
      obtain ⟨e', he', hsat⟩ := List.any_eq_true.1 hbelow
      obtain ⟨e, he, keep', rfl⟩ := Node.exists_of_mem_restrictEntries he'
      exact List.any_eq_true.2 ⟨e, he, areSatisfied_of_restrict fs e keep' hsat⟩
    | leaf m v => cases hbelow
    | leafList m vs => cases hbelow

/-- What the children of a restricted body satisfy, those of the body satisfy. -/
theorem areSatisfied_of_restrict (fs : List FilterNode) (cs : List Node) (keep : NodePath → Bool)
    (h : areSatisfied fs (restrictChildren keep 0 cs) = true) : areSatisfied fs cs = true := by
  match fs with
  | [] => rfl
  | f :: fs =>
    rw [areSatisfied, Bool.and_eq_true, List.any_eq_true] at h
    obtain ⟨⟨c', hc', hsat⟩, hrest⟩ := h
    obtain ⟨c, hc, keep', rfl⟩ := Node.exists_of_mem_restrictChildren hc'
    rw [areSatisfied, Bool.and_eq_true, List.any_eq_true]
    exact ⟨⟨c, hc, isSatisfied_of_restrict f c keep' hsat⟩, areSatisfied_of_restrict fs cs keep hrest⟩

end

/-! ## What filter nodes keep together -/

/-- Does one of the filter nodes keep the path? -/
def keepTogether (fs : List FilterNode) (node : Node) (p : NodePath) : Bool := fs.any fun f => f.keeps node p

/-- The same for paths from siblings that satisfy the children of all the filter nodes. -/
def keepBelow (fs : List FilterNode) (cs : List Node) (p : NodePath) : Bool :=
  fs.any fun f => keepsSiblings f.children (f.children.all isContent) cs p

/-- The filter nodes that a node satisfies. -/
def satisfiedBy (fs : List FilterNode) (node : Node) : List FilterNode := fs.filter fun f => f.isSatisfied node

/-- The filter nodes whose children siblings satisfy. -/
def satisfiedIn (fs : List FilterNode) (cs : List Node) : List FilterNode := fs.filter fun f => areSatisfied f.children cs

theorem isSatisfied_of_mem {fs : List FilterNode} {node : Node} : ∀ f ∈ satisfiedBy fs node, f.isSatisfied node = true :=
  fun _ hf => (List.mem_filter.1 hf).2

theorem areSatisfied_of_mem {fs : List FilterNode} {cs : List Node} :
    ∀ f ∈ satisfiedIn fs cs, areSatisfied f.children cs = true := fun _ hf => (List.mem_filter.1 hf).2

theorem keeps_nil (f : FilterNode) (node : Node) : f.keeps node [] = true := by
  cases f <;> simp [keeps]

/-- A node is kept if there is a filter node to keep it. -/
theorem keepTogether_nil {fs : List FilterNode} {node : Node} : keepTogether fs node [] = true ↔ fs ≠ [] := by
  cases fs <;> simp [keepTogether, keeps_nil]

theorem keepBelow_nil {fs : List FilterNode} {cs : List Node} : keepBelow fs cs [] = true ↔ fs ≠ [] := by
  cases fs <;> simp [keepBelow, keepsSiblings]

theorem keeps_container (f : FilterNode) (m : NodeName) (cs : List Node) :
    f.keeps (.container m cs) = keepsSiblings f.children (f.children.all isContent) cs := by
  funext p
  cases f <;> cases p <;> simp [keeps, keepsSiblings, children]

theorem keepTogether_container (fs : List FilterNode) (m : NodeName) (cs : List Node) :
    keepTogether fs (.container m cs) = keepBelow fs cs := by
  funext p
  simp only [keepTogether, keepBelow, keeps_container]

theorem keepsAny_eq_any (gs : List FilterNode) (cs : List Node) (i : Nat) (p : NodePath) :
    keepsAny gs cs i p = gs.any fun g => cs[i]?.any fun c => g.isSatisfied c && g.keeps c p := by
  induction gs with
  | nil => rfl
  | cons g gs ih => rw [keepsAny, List.any_cons, ih]

/-- A filter node with nothing but content below keeps all siblings. -/
theorem keepBelow_of_content {fs : List FilterNode} (h : fs.any (·.children.all isContent) = true) (cs : List Node)
    (p : NodePath) : keepBelow fs cs p = true := by
  obtain ⟨f, hf, hcontent⟩ := List.any_eq_true.1 h
  refine List.any_eq_true.2 ⟨f, hf, ?_⟩
  rw [hcontent]
  cases p <;> rfl

/-- Otherwise a sibling is kept as the children that it satisfies keep it together. -/
theorem keepBelow_cons {fs : List FilterNode} (h : fs.any (·.children.all isContent) = false) {cs : List Node} {i : Nat}
    {c : Node} (hc : cs[i]? = some c) (p : NodePath) :
    keepBelow fs cs (i :: p) = keepTogether (satisfiedBy (fs.flatMap children) c) c p := by
  have hnone : ∀ f ∈ fs, f.children.all isContent = false := by
    simpa only [List.any_eq_false, Bool.not_eq_true] using h
  have hbelow : keepBelow fs cs (i :: p) = fs.any fun f => f.children.any fun g => g.isSatisfied c && g.keeps c p := by
    rw [keepBelow, Bool.eq_iff_iff, List.any_eq_true, List.any_eq_true]
    refine exists_congr fun f => and_congr_right fun hf => ?_
    rw [hnone f hf, keepsSiblings, Bool.false_or, keepsAny_eq_any]
    simp only [hc, Option.any_some]
  rw [hbelow, keepTogether, satisfiedBy, List.any_filter, List.any_flatMap]

/-- An entry is kept as the filter nodes whose children it satisfies keep it together. -/
theorem keepTogether_list {fs : List FilterNode} (h : ∀ f ∈ fs, f.isContent = false ∧ f.children ≠ []) (m : NodeName)
    {es : List (List Node)} {i : Nat} {e : List Node} (he : es[i]? = some e) (p : NodePath) :
    keepTogether fs (.list m es) (i :: p) = keepBelow (satisfiedIn fs e) e p := by
  rw [keepTogether, keepBelow, satisfiedIn, List.any_filter, Bool.eq_iff_iff, List.any_eq_true, List.any_eq_true]
  refine exists_congr fun f => and_congr_right fun hf => ?_
  obtain ⟨hkind, hchildren⟩ := h f hf
  cases f with
  | content n t => cases hkind
  | containment n gs =>
    have hempty : gs.isEmpty = false := List.isEmpty_eq_false_iff.2 hchildren
    cases p <;> simp [keeps, keepsSiblings, children, he, hempty]

/-! ## Satisfaction by kind of node -/

theorem isSatisfied_container {f : FilterNode} {m : NodeName} {cs : List Node} :
    f.isSatisfied (.container m cs) = true ↔
      f.isContent = false ∧ f.name.Matches m = true ∧ areSatisfied f.children cs = true := by
  cases f with
  | content n t => simp [isSatisfied, isContent]
  | containment n fs => cases fs <;> simp [isSatisfied, isContent, children, name, Node.name, areSatisfied]

theorem isSatisfied_list {f : FilterNode} {m : NodeName} {es : List (List Node)} :
    f.isSatisfied (.list m es) = true ↔
      f.isContent = false ∧ f.name.Matches m = true ∧
        (f.children = [] ∨ ∃ e ∈ es, areSatisfied f.children e = true) := by
  cases f with
  | content n t => simp [isSatisfied, isContent]
  | containment n fs => simp [isSatisfied, isContent, children, name, Node.name]

theorem isSatisfied_leafList {f : FilterNode} {m : NodeName} {vs : List LeafValue} :
    f.isSatisfied (.leafList m vs) = true ↔
      f.name.Matches m = true ∧
        match f with
        | .content _ t => ∃ v ∈ vs, v.text = t
        | .containment _ fs => fs = [] := by
  cases f <;> simp [isSatisfied, name, Node.name]

/-! ## What is left settles -/

/-- What filter nodes leave of a node together. -/
def leave (fs : List FilterNode) (node : Node) : Node := node.restrict (keepTogether fs node)

/-- What they leave of siblings that satisfy their children. -/
def leaveSiblings (fs : List FilterNode) (cs : List Node) : List Node := restrictChildren (keepBelow fs cs) 0 cs

/-- Does what filter nodes leave of the node still satisfy each of them, and do they leave it as it is? -/
def Settled (node : Node) : Prop :=
  ∀ fs : List FilterNode, (∀ f ∈ fs, f.isSatisfied node = true) →
    (∀ f ∈ fs, f.isSatisfied (leave fs node) = true) ∧ leave fs (leave fs node) = leave fs node

/-- What is left satisfies the same filter nodes as the whole. -/
theorem Settled.satisfiedBy_leave {node : Node} (h : Settled node) (fs : List FilterNode) :
    satisfiedBy fs (leave (satisfiedBy fs node) node) = satisfiedBy fs node := by
  refine List.filter_congr fun f hf => ?_
  rw [Bool.eq_iff_iff]
  exact ⟨isSatisfied_of_restrict f node _, fun hsat => (h _ isSatisfied_of_mem).1 f (List.mem_filter.2 ⟨hf, hsat⟩)⟩

/-- What is left of siblings is what is left of each that satisfies a child of the filter nodes. -/
theorem leaveSiblings_eq {fs : List FilterNode} (h : fs.any (·.children.all isContent) = false) (cs : List Node) :
    leaveSiblings fs cs = cs.filterMap fun c =>
      let gs := satisfiedBy (fs.flatMap children) c
      if gs = [] then none else some (leave gs c) := by
  rw [leaveSiblings, Node.restrictChildren_eq_own fun i c hc => keepBelow_cons h hc]
  refine List.filterMap_congr fun c _ => ?_
  simp only [keepTogether_nil, ite_not]
  rfl

/-- What is left of a list is what is left of each entry that satisfies the children of a filter node. -/
theorem leave_list {fs : List FilterNode} (h : ∀ f ∈ fs, f.isContent = false ∧ f.children ≠ []) (m : NodeName)
    (es : List (List Node)) :
    leave fs (.list m es) = .list m (es.filterMap fun e =>
      if satisfiedIn fs e = [] then none else some (leaveSiblings (satisfiedIn fs e) e)) := by
  rw [leave, Node.restrict, Node.restrictEntries_eq_own fun i e he => keepTogether_list h m he]
  refine congrArg (Node.list m) (List.filterMap_congr fun e _ => ?_)
  simp only [keepBelow_nil, ite_not]
  rfl

/-- A selection of items, each with something of it left, is left as it is if that is so for each. -/
theorem filterMap_filterMap_eq_self {α : Type} {left : α → Option α} {xs : List α}
    (h : ∀ x ∈ xs, ∀ y, left x = some y → left y = some y) : (xs.filterMap left).filterMap left = xs.filterMap left := by
  rw [List.filterMap_filterMap]
  refine List.filterMap_congr fun x hx => ?_
  cases hleft : left x with
  | none => rfl
  | some y => exact h x hx y hleft

theorem settled_siblings {fs : List FilterNode} {cs : List Node} (hcs : ∀ c ∈ cs, Settled c)
    (hsat : ∀ f ∈ fs, areSatisfied f.children cs = true) :
    (∀ f ∈ fs, areSatisfied f.children (leaveSiblings fs cs) = true) ∧
      leaveSiblings fs (leaveSiblings fs cs) = leaveSiblings fs cs := by
  cases hcontent : fs.any (·.children.all isContent) with
  | true =>
    have hall : ∀ cs : List Node, leaveSiblings fs cs = cs := by
      intro cs
      have htrue : keepBelow fs cs = fun _ => true := funext (keepBelow_of_content hcontent cs)
      rw [leaveSiblings, htrue, Node.restrictChildren_true]
    rw [hall, hall]
    exact ⟨hsat, rfl⟩
  | false =>
    simp only [leaveSiblings_eq hcontent]
    constructor
    · intro f hf
      refine areSatisfied_iff.2 fun g hg => ?_
      obtain ⟨c, hc, hgc⟩ := areSatisfied_iff.1 (hsat f hf) g hg
      have hmem : g ∈ satisfiedBy (fs.flatMap children) c :=
        List.mem_filter.2 ⟨List.mem_flatMap.2 ⟨f, hf, hg⟩, hgc⟩
      exact ⟨_, List.mem_filterMap.2 ⟨c, hc, if_neg (List.ne_nil_of_mem hmem)⟩,
        (hcs c hc _ isSatisfied_of_mem).1 g hmem⟩
    · refine filterMap_filterMap_eq_self fun c hc c' hc' => ?_
      obtain ⟨hne, hc'⟩ := Option.ite_none_left_eq_some.1 hc'
      obtain rfl := Option.some.inj hc'
      simp only [(hcs c hc).satisfiedBy_leave]
      rw [if_neg hne, (hcs c hc _ isSatisfied_of_mem).2]

theorem settled_container (m : NodeName) {cs : List Node} (hcs : ∀ c ∈ cs, Settled c) : Settled (.container m cs) := by
  intro fs hsat
  have hleave : ∀ cs, leave fs (.container m cs) = .container m (leaveSiblings fs cs) := by
    intro cs
    rw [leave, keepTogether_container]
    rfl
  obtain ⟨hstill, hsame⟩ := settled_siblings hcs fun f hf => (isSatisfied_container.1 (hsat f hf)).2.2
  rw [hleave, hleave, hsame]
  refine ⟨fun f hf => ?_, rfl⟩
  obtain ⟨hkind, hname, -⟩ := isSatisfied_container.1 (hsat f hf)
  exact isSatisfied_container.2 ⟨hkind, hname, hstill f hf⟩

theorem settled_list (m : NodeName) {es : List (List Node)} (hes : ∀ e ∈ es, ∀ c ∈ e, Settled c) :
    Settled (.list m es) := by
  intro fs hsat
  by_cases hselects : ∃ f ∈ fs, f.children = []
  · -- one of the filter nodes keeps all entries
    obtain ⟨f, hf, hempty⟩ := hselects
    have hall : keepTogether fs (.list m es) = fun _ => true := by
      funext p
      obtain ⟨hkind, -⟩ := isSatisfied_list.1 (hsat f hf)
      cases f with
      | content n t => cases hkind
      | containment n gs => exact List.any_eq_true.2 ⟨_, hf, keeps_of_isEmpty (List.isEmpty_iff.2 hempty) _ p⟩
    have hleave : leave fs (.list m es) = .list m es := by rw [leave, hall, Node.restrict_true]
    rw [hleave, hleave]
    exact ⟨hsat, rfl⟩
  · have hkinds : ∀ f ∈ fs, f.isContent = false ∧ f.children ≠ [] := fun f hf =>
      ⟨(isSatisfied_list.1 (hsat f hf)).1, fun hempty => hselects ⟨f, hf, hempty⟩⟩
    rw [leave_list hkinds, leave_list hkinds]
    constructor
    · intro f hf
      obtain ⟨hkind, hname, hentry⟩ := isSatisfied_list.1 (hsat f hf)
      obtain ⟨e, he, hfe⟩ := hentry.resolve_left (hkinds f hf).2
      have hmem : f ∈ satisfiedIn fs e := List.mem_filter.2 ⟨hf, hfe⟩
      exact isSatisfied_list.2 ⟨hkind, hname, .inr ⟨_,
        List.mem_filterMap.2 ⟨e, he, if_neg (List.ne_nil_of_mem hmem)⟩,
        (settled_siblings (hes e he) areSatisfied_of_mem).1 f hmem⟩⟩
    · refine congrArg (Node.list m) (filterMap_filterMap_eq_self fun e he e' he' => ?_)
      obtain ⟨hne, he'⟩ := Option.ite_none_left_eq_some.1 he'
      obtain rfl := Option.some.inj he'
      have hall : ∀ f ∈ satisfiedIn fs e, areSatisfied f.children e = true := areSatisfied_of_mem
      obtain ⟨hstill, hsame⟩ := settled_siblings (hes e he) hall
      have hagain : satisfiedIn fs (leaveSiblings (satisfiedIn fs e) e) = satisfiedIn fs e := by
        refine List.filter_congr fun f hf => ?_
        rw [Bool.eq_iff_iff]
        exact ⟨areSatisfied_of_restrict f.children e _, fun h => hstill f (List.mem_filter.2 ⟨hf, h⟩)⟩
      rw [hagain, if_neg hne, hsame]

theorem settled_leafList (m : NodeName) (vs : List LeafValue) : Settled (.leafList m vs) := by
  intro fs hsat
  -- whether a value is kept depends on its text alone
  let own (v : LeafValue) : Bool := fs.any fun f => f.keeps (.leafList m [v]) [0]
  have hleave : ∀ vs, leave fs (.leafList m vs) =
      .leafList m (vs.filterMap fun v => if own v then some v else none) := by
    intro vs
    refine congrArg (Node.leafList m) (Node.filterMap_zipIdx fun i v hv => ?_)
    have hown : keepTogether fs (.leafList m vs) [i] = own v := by
      refine congrArg fs.any (funext fun f => ?_)
      cases f <;> simp [keeps, hv]
    simp only [hown]
  rw [hleave, hleave]
  constructor
  · intro f hf
    obtain ⟨hname, hvalues⟩ := isSatisfied_leafList.1 (hsat f hf)
    refine isSatisfied_leafList.2 ⟨hname, ?_⟩
    cases f with
    | containment n gs => exact hvalues
    | content n t =>
      obtain ⟨v, hv, ht⟩ := hvalues
      have hown : own v = true := List.any_eq_true.2 ⟨_, hf, by simp [keeps, ht]⟩
      exact ⟨v, List.mem_filterMap.2 ⟨v, hv, if_pos hown⟩, ht⟩
  · refine congrArg (Node.leafList m) (filterMap_filterMap_eq_self fun v _ v' hv' => ?_)
    obtain ⟨hown, hv'⟩ := Option.ite_none_right_eq_some.1 hv'
    obtain rfl := Option.some.inj hv'
    exact if_pos hown

mutual

/-- Pruning settles at every node, by recursion on the body. -/
theorem settled (node : Node) : Settled node := by
  match node with
  | .leaf m v => exact fun fs hsat => ⟨hsat, rfl⟩
  | .leafList m vs => exact settled_leafList m vs
  | .container m cs => exact settled_container m (settled_each cs)
  | .list m es => exact settled_list m (settled_entries es)

theorem settled_each (cs : List Node) : ∀ c ∈ cs, Settled c := by
  match cs with
  | [] => exact nofun
  | c :: cs => exact List.forall_mem_cons.2 ⟨settled c, settled_each cs⟩

theorem settled_entries (es : List (List Node)) : ∀ e ∈ es, ∀ c ∈ e, Settled c := by
  match es with
  | [] => exact nofun
  | e :: es => exact List.forall_mem_cons.2 ⟨settled_each e, settled_entries es⟩

end

end FilterNode

/-! ## Filters -/

namespace SubtreeFilter

open FilterNode (satisfiedBy leave)

theorem accepts_iff {f : SubtreeFilter} (hroots : f.roots ≠ []) {body : Node} :
    f.accepts body = true ↔ satisfiedBy f.roots body ≠ [] := by
  rw [accepts_eq, List.isEmpty_eq_false_iff.2 hroots, Bool.false_or, List.any_eq_true, satisfiedBy, Ne,
    List.filter_eq_nil_iff]
  simp

/-- A filter with roots leaves of a body what the roots that it satisfies leave together. -/
theorem prune_eq_leave {f : SubtreeFilter} (hroots : f.roots ≠ []) (body : Node) :
    f.prune body = if satisfiedBy f.roots body = [] then none else some (leave (satisfiedBy f.roots body) body) := by
  have hkeeps : f.keeps body = FilterNode.keepTogether (satisfiedBy f.roots body) body := by
    funext p
    rw [keeps, List.isEmpty_eq_false_iff.2 hroots, Bool.false_or, FilterNode.keepTogether, satisfiedBy, List.any_filter]
  rw [prune_eq, hkeeps]
  simp only [accepts_iff hroots, ite_not]
  rfl

/-- A filter that accepts a part of a body accepts the body. -/
theorem accepts_of_restrict {f : SubtreeFilter} {body : Node} {keep : NodePath → Bool}
    (h : f.accepts (body.restrict keep) = true) : f.accepts body = true := by
  rw [accepts_eq, Bool.or_eq_true] at h ⊢
  refine h.imp_right fun hany => ?_
  obtain ⟨r, hr, hsat⟩ := List.any_eq_true.1 hany
  exact List.any_eq_true.2 ⟨r, hr, r.isSatisfied_of_restrict body keep hsat⟩

/-- What pruning leaves is accepted, and pruned to itself. -/
theorem settles_of_prune {f : SubtreeFilter} {body left : Node} (h : f.prune body = some left) :
    f.accepts left = true ∧ f.prune left = some left := by
  by_cases hroots : f.roots = []
  · simp [accepts, prune, isEmpty, hroots]
  · rw [prune_eq_leave hroots] at h
    obtain ⟨hne, hleft⟩ := Option.ite_none_left_eq_some.1 h
    obtain rfl := Option.some.inj hleft
    have hsettled := FilterNode.settled body
    rw [accepts_iff hroots, prune_eq_leave hroots, hsettled.satisfiedBy_leave, if_neg hne,
      (hsettled _ FilterNode.isSatisfied_of_mem).2]
    exact ⟨hne, rfl⟩

/-- A filter accepts what it left of a body and leaves it as it is; and a body that it rejects has no part, with any
children, entries and values deleted at any depth, that it accepts. -/
theorem pruning_settles (f : SubtreeFilter) (body : Node) :
    (∀ left, f.prune body = some left → f.accepts left = true ∧ f.prune left = some left) ∧
    ∀ keep, f.accepts body = false → f.accepts (body.restrict keep) = false := by
  refine ⟨fun left hleft => settles_of_prune hleft, fun keep hrejects => ?_⟩
  by_contra hnot
  rw [Bool.not_eq_false] at hnot
  rw [accepts_of_restrict hnot] at hrejects
  cases hrejects

/-- Two filter nodes meet on a list, where the first takes one entry whole and the second the names of all; and what no
entry satisfies is not satisfied by the entries without their leaves either. -/
theorem pruning_settles_overlapping :
    let id (v : String) : Node := .text "id" v
    let name (v : String) : Node := .text "name" v
    let entry (fs : List FilterNode) : FilterNode := .containment (.bare "entry") fs
    let body : Node := .container (.qualified "m" "inventory")
      [.list (.bare "entry") [[id "1", name "lamp"], [id "2", name "desk"], [id "3"]],
        .leafList (.bare "tag") [.string "new", .string "old"]]
    let left : Node := .container (.qualified "m" "inventory")
      [.list (.bare "entry") [[id "1", name "lamp"], [name "desk"]], .leafList (.bare "tag") [.string "old"]]
    let f : SubtreeFilter := ⟨[.containment (.qualified "m" "inventory")
      [entry [.content (.bare "id") "1"], entry [.selection (.bare "name")], .content (.bare "tag") "old"]]⟩
    let g : SubtreeFilter := ⟨[.containment (.bare "inventory") [entry [.content (.bare "id") "4"]]]⟩
    f.prune body = some left ∧ (f.accepts left = true ∧ f.prune left = some left) ∧
      g.accepts body = false ∧ g.accepts (body.restrict fun p => p.length < 3) = false := by
  intro id name entry body left f g
  have hleft : f.prune body = some left := by cbv
  have hrejects : g.accepts body = false := by cbv
  exact ⟨hleft, (pruning_settles f body).1 left hleft, hrejects,
    (pruning_settles g body).2 (fun p => p.length < 3) hrejects⟩

end SubtreeFilter

end YangSubscriptions
