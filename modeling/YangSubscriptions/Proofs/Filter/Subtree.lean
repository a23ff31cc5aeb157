import YangSubscriptions.Proofs.Filter.Restriction
import YangSubscriptions.Filter.Stream

/-!
# Exactness of subtree filters

Which nodes satisfy a filter node and which paths it keeps of them, said without selections
(`isSatisfied`, `keeps`). The selection that is computed describes exactly that (`select_spec`), so that
a filter accepts a body if some root is satisfied, and prunes it to the paths that the satisfied roots
keep (`prune_exact`).
-/

namespace YangSubscriptions

namespace FilterNode

mutual

/-- Is the filter node satisfied by a node of its name? Content by a value, containment by a container or
an entry that satisfies all its children. -/
def isSatisfied : FilterNode → Node → Bool
  | .content n t, node =>
    n.Matches node.name &&
      match node with
      | .leaf _ v => v.text = t
      | .leafList _ vs => vs.any (·.text = t)
      | .container _ _ | .list _ _ => false
  | .containment n fs, node =>
    n.Matches node.name && (fs.isEmpty ||
      match node with
      | .container _ cs => areSatisfied fs cs
      | .list _ es => es.any fun e => areSatisfied fs e
      | .leaf _ _ | .leafList _ _ => false)

/-- Is each of the filter nodes satisfied by one of the siblings? -/
def areSatisfied : List FilterNode → List Node → Bool
  | [], _ => true
  | f :: fs, cs => cs.any (fun c => isSatisfied f c) && areSatisfied fs cs

end

mutual

/-- Does the filter node keep the path of a node that satisfies it? -/
def keeps : FilterNode → Node → NodePath → Bool
  | _, _, [] => true
  | .content _ t, .leafList _ vs, i :: _ => vs[i]?.any (·.text = t)
  | .content _ _, _, _ => true
  | .containment _ fs, .container _ cs, i :: p => fs.all isContent || keepsAny fs cs i p
  | .containment _ fs, .list _ es, [i] => fs.isEmpty || es[i]?.any fun e => areSatisfied fs e
  | .containment _ fs, .list _ es, i :: j :: p =>
    fs.isEmpty || es[i]?.any fun e => areSatisfied fs e && (fs.all isContent || keepsAny fs e j p)
  | .containment _ _, _, _ => true

/-- Does one of the filter nodes that are satisfied by sibling `i` keep the path from it? -/
def keepsAny : List FilterNode → List Node → Nat → NodePath → Bool
  | [], _, _, _ => false
  | f :: fs, cs, i, p => (cs[i]?.any fun c => isSatisfied f c && keeps f c p) || keepsAny fs cs i p

end

end FilterNode

/-! ## What satisfies a filter node -/

namespace Node

/-- The siblings below a node: the children of a container, or those of each entry of a list. -/
def instances : Node → List (List Node)
  | .container _ cs => [cs]
  | .list _ es => es
  | .leaf _ _ | .leafList _ _ => []

/-- The value of a leaf, or the values of a leaf-list. -/
def values : Node → List LeafValue
  | .leaf _ v => [v]
  | .leafList _ vs => vs
  | .container _ _ | .list _ _ => []

/-- Is it of that local name, and of that module where both name one? -/
def IsNamed (node : Node) (n : NodeName) : Prop :=
  n.name = node.name.name ∧ ∀ a b, n.module = some a → node.name.module = some b → a = b

theorem matches_iff {n : NodeName} {node : Node} : n.Matches node.name = true ↔ node.IsNamed n := by
  unfold NodeName.Matches IsNamed
  rw [Bool.and_eq_true, decide_eq_true_eq]
  refine and_congr_right fun _ => ?_
  cases n.module <;> cases node.name.module <;> simp

end Node

namespace FilterNode

theorem areSatisfied_iff {fs : List FilterNode} {cs : List Node} :
    areSatisfied fs cs = true ↔ ∀ f ∈ fs, ∃ c ∈ cs, f.isSatisfied c = true := by
  induction fs with
  | nil => exact ⟨fun _ => nofun, fun _ => by rw [areSatisfied]⟩
  | cons f fs ih => rw [areSatisfied, Bool.and_eq_true, ih, List.any_eq_true, List.forall_mem_cons]

theorem content_isSatisfied_iff {n : NodeName} {t : String} {node : Node} :
    (content n t).isSatisfied node = true ↔ node.IsNamed n ∧ ∃ v ∈ node.values, v.text = t := by
  rw [← Node.matches_iff]
  cases node <;> simp [isSatisfied, Node.values]

theorem containment_isSatisfied_iff {n : NodeName} {fs : List FilterNode} {node : Node} :
    (containment n fs).isSatisfied node = true ↔
      node.IsNamed n ∧
        (fs = [] ∨ ∃ siblings ∈ node.instances, ∀ f ∈ fs, ∃ c ∈ siblings, f.isSatisfied c = true) := by
  rw [← Node.matches_iff]
  cases node <;> simp [isSatisfied, Node.instances, areSatisfied_iff]

end FilterNode

/-! ## What a selection describes -/

namespace Selection

/-- A selection says that the node is satisfactory and which paths are kept; no selection, that it is not. -/
def Describes (node : Node) (satisfied : Bool) (keep : NodePath → Bool) : Option Selection → Prop
  | some s => satisfied = true ∧ s.Fits node ∧ ∀ p, s.holds p = keep p
  | none => satisfied = false

/-- The same for positions of siblings. -/
def DescribesAll (cs : List Node) (satisfied : Bool) (keep : Nat → NodePath → Bool) : Option Positions → Prop
  | some kept => satisfied = true ∧ FitsEach kept cs ∧ ∀ i p, holdsAt kept i p = keep i p
  | none => satisfied = false

theorem Describes.isSome_eq {node : Node} {satisfied : Bool} {keep : NodePath → Bool} {o : Option Selection}
    (h : Describes node satisfied keep o) : o.isSome = satisfied := by
  cases o with
  | none => exact h.symm
  | some s => exact h.1.symm

/-- The selections of items, each at its position, from `k` on. -/
def ofEach {α : Type} (select : α → Option Selection) (k : Nat) (xs : List α) : Positions :=
  (xs.zipIdx k).filterMap fun (x, i) => (select x).map (i, ·)

theorem ofEach_cons {α : Type} (select : α → Option Selection) (k : Nat) (x : α) (xs : List α) :
    ofEach select k (x :: xs) =
      match select x with
      | some s => (k, s) :: ofEach select (k + 1) xs
      | none => ofEach select (k + 1) xs := by
  unfold ofEach
  rw [List.zipIdx_cons, List.filterMap_cons]
  cases h : select x with
  | some s => simp only [h, Option.map_some]
  | none => simp only [h, Option.map_none]

theorem ofEach_spec {α : Type} (node : α → Node) {satisfied : α → Bool} {keep : α → NodePath → Bool}
    {select : α → Option Selection} (items : List Node) (xs : List α) {k : Nat}
    (h : ∀ x ∈ xs, Describes (node x) (satisfied x) (keep x) (select x))
    (hitems : ∀ i x, xs[i]? = some x → items[k + i]? = some (node x)) :
    (∀ q ∈ ofEach select k xs, k ≤ q.1) ∧ FitsEach (ofEach select k xs) items ∧
      (ofEach select k xs).isEmpty = !xs.any satisfied ∧
      ∀ i p, holdsAt (ofEach select k xs) (k + i) p = xs[i]?.any fun x => satisfied x && keep x p := by
  induction xs generalizing k with
  | nil => exact ⟨nofun, trivial, rfl, fun i p => rfl⟩
  | cons x xs ih =>
    obtain ⟨hfrom, hfits, hempty, hholds⟩ := ih (k := k + 1) (fun y hy => h y (List.mem_cons_of_mem _ hy))
      fun i y hy => by rw [Nat.add_right_comm]; exact hitems (i + 1) y hy
    have hx := h x List.mem_cons_self
    -- nothing of the other items is at `k`
    have hbehind : ∀ p, holdsAt (ofEach select (k + 1) xs) k p = false :=
      holdsAt_of_forall_ne fun q hq => Nat.ne_of_gt (hfrom q hq)
    have hshift : ∀ i p, holdsAt (ofEach select (k + 1) xs) (k + (i + 1)) p =
        xs[i]?.any fun x => satisfied x && keep x p := by
      intro i p
      rw [← hholds, Nat.add_right_comm, Nat.add_assoc]
    rw [ofEach_cons]
    cases hselect : select x with
    | none =>
      rw [hselect] at hx
      replace hx : satisfied x = false := hx
      refine ⟨fun q hq => Nat.le_of_lt (hfrom q hq), hfits, ?_, fun i p => ?_⟩
      · rw [hempty, List.any_cons, hx, Bool.false_or]
      · cases i with
        | zero => simp [hbehind, hx]
        | succ i => simp [hshift]
    | some s =>
      rw [hselect] at hx
      obtain ⟨hsat, hs, hkeep⟩ := hx
      refine ⟨fun q hq => ?_, ⟨hfrom, ⟨node x, hitems 0 x rfl, hs⟩, hfits⟩, ?_, fun i p => ?_⟩
      · rcases List.mem_cons.1 hq with rfl | hq
        · exact Nat.le_refl k
        · exact Nat.le_of_lt (hfrom q hq)
      · rw [List.any_cons, hsat]
        rfl
      · cases i with
        | zero => simp [holdsAt, hbehind, hsat, hkeep]
        | succ i => simp [holdsAt, hshift]

end Selection

namespace FilterNode

open Selection (Describes DescribesAll)

theorem mem_keptValues {t : String} {vs : List LeafValue} {i : Nat} :
    i ∈ keptValues t vs ↔ ∃ v, vs[i]? = some v ∧ v.text = t := by
  unfold keptValues
  simp only [List.mem_map, List.mem_filter, decide_eq_true_eq, Prod.exists, exists_eq_right,
    List.mem_zipIdx_iff_getElem?]

theorem pairwise_keptValues (t : String) (vs : List LeafValue) : (keptValues t vs).Pairwise (· < ·) := by
  have hsub : (keptValues t vs).Sublist (vs.zipIdx.map (·.2)) := (List.filter_sublist ..).map _
  rw [List.zipIdx_map_snd] at hsub
  exact (List.pairwise_lt_range' ..).sublist hsub

theorem isEmpty_keptValues (t : String) (vs : List LeafValue) :
    (keptValues t vs).isEmpty = !vs.any (·.text = t) := by
  rw [Bool.eq_iff_iff, List.isEmpty_iff, List.eq_nil_iff_forall_not_mem]
  simp only [mem_keptValues, Bool.not_eq_true', List.any_eq_false, decide_eq_true_eq]
  constructor
  · intro h v hv ht
    obtain ⟨i, hi⟩ := List.mem_iff_getElem?.1 hv
    exact h i ⟨v, hi, ht⟩
  · rintro h i ⟨v, hv, ht⟩
    exact h v (List.mem_of_getElem? hv) ht

theorem describes_keptValues (n m : NodeName) (t : String) (vs : List LeafValue) :
    Describes (.leafList m vs) (vs.any (·.text = t)) (keeps (.content n t) (.leafList m vs))
      (ofKept .values (keptValues t vs)) := by
  have hiff : ∀ i, i ∈ keptValues t vs ↔ vs[i]?.any (·.text = t) = true := by
    intro i
    rw [mem_keptValues]
    cases vs[i]? <;> simp
  unfold ofKept
  rw [isEmpty_keptValues]
  cases hany : vs.any (·.text = t) with
  | false => rfl
  | true =>
    refine ⟨rfl, ⟨pairwise_keptValues t vs, fun i hi => ?_⟩, fun p => ?_⟩
    · obtain ⟨v, hv, -⟩ := mem_keptValues.1 hi
      exact (List.getElem?_eq_some_iff.1 hv).1
    · cases p with
      | nil => rfl
      | cons i p => rw [Bool.eq_iff_iff, Selection.holds, List.contains_iff_mem, hiff, keeps]

/-- A selection node keeps all of what it names. -/
theorem keeps_of_isEmpty {n : NodeName} {fs : List FilterNode} (h : fs.isEmpty = true) (node : Node) (p : NodePath) :
    keeps (.containment n fs) node p = true := by
  cases fs with
  | cons f fs => cases h
  | nil =>
    match node, p with
    | _, [] => simp [keeps]
    | .container _ _, _ :: _ => simp [keeps]
    | .list _ _, [_] => simp [keeps]
    | .list _ _, _ :: _ :: _ => simp [keeps]
    | .leaf _ _, _ :: _ => simp [keeps]
    | .leafList _ _, _ :: _ => simp [keeps]

theorem content_spec (n : NodeName) (t : String) (node : Node) :
    Describes node (isSatisfied (.content n t) node) (keeps (.content n t) node) (select (.content n t) node) := by
  unfold isSatisfied select
  by_cases hname : n.Matches node.name = true
  · rw [if_pos hname, hname, Bool.true_and]
    cases node with
    | leaf m v =>
      by_cases htext : v.text = t
      · simp only [htext, if_true, decide_true]
        exact ⟨rfl, trivial, fun p => by cases p <;> rfl⟩
      · simp only [htext, if_false, decide_false]
        rfl
    | leafList m vs => exact describes_keptValues n m t vs
    | container m cs => rfl
    | list m es => rfl
  · rw [if_neg hname, Bool.eq_false_iff.2 hname]
    rfl

/-- The paths that filter nodes keep below siblings; all of them if only content matters. -/
def keepsSiblings (fs : List FilterNode) (contentOnly : Bool) (cs : List Node) : NodePath → Bool
  | [] => true
  | i :: p => contentOnly || keepsAny fs cs i p

theorem siblings_spec {fs : List FilterNode} {cs : List Node} (n : NodeName) (contentOnly : Bool)
    (h : DescribesAll cs (areSatisfied fs cs) (keepsAny fs cs) (selectAll fs cs)) :
    Describes (.container n cs) (areSatisfied fs cs) (keepsSiblings fs contentOnly cs)
      (selectSiblings fs contentOnly cs) := by
  rw [selectSiblings]
  cases hall : selectAll fs cs with
  | none =>
    rw [hall] at h
    exact h
  | some kept =>
    rw [hall] at h
    obtain ⟨hsat, hfits, hholds⟩ := h
    cases contentOnly with
    | true => exact ⟨hsat, trivial, fun p => by cases p <;> rfl⟩
    | false =>
      refine ⟨hsat, hfits, fun p => ?_⟩
      cases p with
      | nil => rfl
      | cons i p => exact hholds i p

mutual

/-- The selection of a filter node describes whether it is satisfied and what it keeps. -/
theorem select_spec (f : FilterNode) (node : Node) :
    Describes node (f.isSatisfied node) (f.keeps node) (f.select node) := by
  match f with
  | .content n t => exact content_spec n t node
  | .containment n fs =>
    unfold isSatisfied select
    by_cases hname : n.Matches node.name = true
    · rw [if_pos hname, hname, Bool.true_and]
      cases hempty : fs.isEmpty with
      | true =>
        rw [Bool.true_or, if_pos rfl]
        exact ⟨rfl, trivial, fun p => (keeps_of_isEmpty hempty node p).symm⟩
      | false =>
        cases node with
        | leaf m v => rfl
        | leafList m vs => rfl
        | container m cs =>
          have hkeep : keeps (.containment n fs) (.container m cs) = keepsSiblings fs (fs.all isContent) cs := by
            funext p
            cases p <;> simp [keeps, keepsSiblings]
          rw [hkeep]
          exact siblings_spec m (fs.all isContent) (selectAll_spec fs cs)
        | list m es =>
          obtain ⟨-, hfits, hnone, hholds⟩ := Selection.ofEach_spec (.container m) (es.map (.container m)) es (k := 0)
            (fun e _ => siblings_spec m (fs.all isContent) (selectAll_spec fs e)) fun i e he => by
              rw [Nat.zero_add, List.getElem?_map, he, Option.map_some]
          show Describes _ (es.any fun e => areSatisfied fs e) _
            (ofKept .entries (Selection.ofEach (selectSiblings fs (fs.all isContent)) 0 es))
          unfold ofKept
          rw [hnone]
          cases hany : es.any fun e => areSatisfied fs e with
          | false => rfl
          | true =>
            refine ⟨rfl, hfits, fun p => ?_⟩
            cases p with
            | nil => rfl
            | cons i p =>
              have hi := hholds i p
              rw [Nat.zero_add] at hi
              rw [Selection.holds, hi]
              cases p <;> simp [keeps, keepsSiblings, hempty]
    · rw [if_neg hname, Bool.eq_false_iff.2 hname]
      rfl

theorem selectAll_spec (fs : List FilterNode) (cs : List Node) :
    DescribesAll cs (areSatisfied fs cs) (keepsAny fs cs) (selectAll fs cs) := by
  match fs with
  | [] =>
    rw [selectAll]
    exact ⟨rfl, trivial, fun i p => rfl⟩
  | f :: fs =>
    obtain ⟨-, hfits, hnone, hholds⟩ := Selection.ofEach_spec (fun c => c) cs cs (k := 0)
      (fun c _ => select_spec f c) fun i c hc => by rw [Nat.zero_add, hc]
    have hrest := selectAll_spec fs cs
    rw [selectAll, areSatisfied]
    show DescribesAll cs _ _ (if (Selection.ofEach f.select 0 cs).isEmpty then none
      else (selectAll fs cs).map (Selection.mergePositions (Selection.ofEach f.select 0 cs)))
    rw [hnone]
    cases hany : cs.any fun c => f.isSatisfied c with
    | false => rfl
    | true =>
      cases hall : selectAll fs cs with
      | none =>
        rw [hall] at hrest
        exact hrest
      | some kept =>
        rw [hall] at hrest
        obtain ⟨hsat, hkept, hkeep⟩ := hrest
        obtain ⟨hmerged, hunion⟩ := Selection.mergePositions_spec _ kept hfits hkept
        refine ⟨hsat, hmerged, fun i p => ?_⟩
        have hi := hholds i p
        rw [Nat.zero_add] at hi
        rw [hunion, hi, hkeep, keepsAny]

end

end FilterNode

/-! ## Filters -/

namespace SubtreeFilter

open Selection (Describes)

/-- The union of selections that describe what roots keep. -/
theorem foldl_union_spec {node : Node} {s : Selection} (hs : s.Fits node) {ss : List Selection}
    (hss : ∀ t ∈ ss, t.Fits node) :
    (ss.foldl Selection.union s).Fits node ∧
      ∀ p, (ss.foldl Selection.union s).holds p = (s.holds p || ss.any fun t => t.holds p) := by
  induction ss generalizing s with
  | nil => exact ⟨hs, fun p => by simp⟩
  | cons t ss ih =>
    obtain ⟨hfits, hholds⟩ := Selection.union_spec s t hs (hss t List.mem_cons_self)
    obtain ⟨hfits', hholds'⟩ := ih hfits fun u hu => hss u (List.mem_cons_of_mem _ hu)
    refine ⟨hfits', fun p => ?_⟩
    rw [List.foldl_cons, hholds', hholds, List.any_cons, Bool.or_assoc]

theorem accepts_eq (f : SubtreeFilter) (body : Node) :
    f.accepts body = (f.roots.isEmpty || f.roots.any fun r => r.isSatisfied body) := by
  unfold accepts isEmpty
  simp only [fun r : FilterNode => (r.select_spec body).isSome_eq]

/-- The selections of the roots that are satisfied. -/
theorem selections_spec (roots : List FilterNode) (body : Node) :
    let selected := roots.filterMap fun r => r.select body
    (∀ s ∈ selected, s.Fits body) ∧ selected.isEmpty = !roots.any (fun r => r.isSatisfied body) ∧
      ∀ p, (selected.any fun s => s.holds p) = roots.any fun r => r.isSatisfied body && r.keeps body p := by
  induction roots with
  | nil => exact ⟨nofun, rfl, fun p => rfl⟩
  | cons r roots ih =>
    obtain ⟨hfits, hempty, hholds⟩ := ih
    have hr := r.select_spec body
    simp only [List.filterMap_cons]
    cases hselect : r.select body with
    | none =>
      rw [hselect] at hr
      replace hr : r.isSatisfied body = false := hr
      refine ⟨hfits, ?_, fun p => ?_⟩
      · rw [hempty, List.any_cons, hr, Bool.false_or]
      · rw [hholds, List.any_cons, hr, Bool.false_and, Bool.false_or]
    | some s =>
      rw [hselect] at hr
      obtain ⟨hsat, hs, hkeep⟩ := hr
      refine ⟨fun t ht => ?_, ?_, fun p => ?_⟩
      · rcases List.mem_cons.1 ht with rfl | ht
        · exact hs
        · exact hfits t ht
      · rw [List.any_cons, hsat]
        rfl
      · rw [List.any_cons, List.any_cons, hholds, hsat, hkeep, Bool.true_and]

/-- The paths of a body that a filter keeps: all without roots, else those of the satisfied roots. -/
def keeps (f : SubtreeFilter) (body : Node) (p : NodePath) : Bool :=
  f.roots.isEmpty || f.roots.any fun r => r.isSatisfied body && r.keeps body p

theorem prune_eq (f : SubtreeFilter) (body : Node) :
    f.prune body = if f.accepts body then some (body.restrict (f.keeps body)) else none := by
  rw [accepts_eq]
  unfold prune isEmpty
  by_cases hroots : f.roots.isEmpty = true
  · have hall : f.keeps body = fun _ => true := by
      funext p
      rw [keeps, hroots, Bool.true_or]
    rw [if_pos hroots, hroots, Bool.true_or, if_pos rfl, hall, Node.restrict_true]
  · obtain ⟨hfits, hempty, hholds⟩ := selections_spec f.roots body
    rw [if_neg hroots, Bool.eq_false_iff.2 hroots, Bool.false_or]
    unfold selection?
    cases hselected : f.roots.filterMap fun r => r.select body with
    | nil =>
      rw [hselected] at hempty
      have hnone : f.roots.any (fun r => r.isSatisfied body) = false := (Bool.not_eq_true' _).mp hempty.symm
      rw [hnone]
      rfl
    | cons s ss =>
      rw [hselected] at hfits hempty hholds
      have hsome : f.roots.any (fun r => r.isSatisfied body) = true := (Bool.not_eq_false' _).mp hempty.symm
      obtain ⟨hfits, hunion⟩ := foldl_union_spec (hfits s List.mem_cons_self)
        fun t ht => hfits t (List.mem_cons_of_mem _ ht)
      have hkeeps : (ss.foldl Selection.union s).holds = f.keeps body := by
        funext p
        rw [hunion, ← List.any_cons (f := fun t : Selection => t.holds p), hholds, keeps, Bool.eq_false_iff.2 hroots,
          Bool.false_or]
      rw [hsome, if_pos rfl, Option.map_some, Node.cut_eq_restrict _ hfits, hkeeps]

/-- A filter accepts a body if it has no roots or some root is satisfied, and then prunes it to the paths
that the satisfied roots keep. -/
theorem prune_exact (f : SubtreeFilter) (body : Node) :
    (f.accepts body = true ↔ f.roots = [] ∨ ∃ r ∈ f.roots, r.isSatisfied body = true) ∧
    (f.prune body).isSome = f.accepts body ∧
    ((ResolvedFilter.subtree f).apply body).isSome = f.accepts body ∧
    f.prune body = if f.accepts body then some (body.restrict (f.keeps body)) else none := by
  have hsome : (f.prune body).isSome = f.accepts body := by
    rw [prune_eq]
    cases f.accepts body <;> rfl
  refine ⟨?_, hsome, hsome, prune_eq f body⟩
  rw [accepts_eq, Bool.or_eq_true, List.isEmpty_iff, List.any_eq_true]

end SubtreeFilter

end YangSubscriptions
