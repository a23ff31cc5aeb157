import Mathlib.Data.List.Basic
import YangSubscriptions.Proofs.Data.Modules
import YangSubscriptions.Proofs.Filter.Subtree

/-!
# Filters and inherited modules

A name without a module stands for that name in any module, also where it is a node of the body that inherits one. So
a filter accepts no less of a body than of the body with every inherited module written, and keeps no less of it; and
it does the same to both if no filter node is satisfied by a node that inherits another module than the one it
names (`filtering_by_modules`). Without that they differ (`inherited_module_ignored`). Names are the only place where
the two bodies differ, so their paths are the same, and cutting one is cutting the other (`restrict_resolve`).
-/

namespace YangSubscriptions

namespace NodeName

/-- What matches a name with its module written matches it as it is. -/
theorem matches_of_resolve {n m : NodeName} {parent : Option String} (h : n.Matches (m.resolve parent) = true) :
    n.Matches m = true := by
  obtain ⟨own, name⟩ := m
  cases own with
  | some k => exact h
  | none =>
    simp only [Matches, resolve, Bool.and_eq_true] at h ⊢
    refine ⟨h.1, ?_⟩
    cases n.module <;> rfl

end NodeName

namespace Node

mutual

/-- The node with the module that every name stands for written with it. Unlike in `explicit`, a list without entries
stays a list. -/
def resolve (parent : Option String) : Node → Node
  | .container n cs => .container (n.resolve parent) (resolveList (n.effectiveModule parent) cs)
  | .list n es => .list (n.resolve parent) (resolveEntries (n.effectiveModule parent) es)
  | .leaf n v => .leaf (n.resolve parent) v
  | .leafList n vs => .leafList (n.resolve parent) vs

def resolveList (module : Option String) : List Node → List Node
  | [] => []
  | c :: cs => resolve module c :: resolveList module cs

def resolveEntries (module : Option String) : List (List Node) → List (List Node)
  | [] => []
  | e :: es => resolveList module e :: resolveEntries module es

end

@[simp] theorem name_resolve (parent : Option String) (node : Node) :
    (node.resolve parent).name = node.name.resolve parent := by
  cases node <;> rfl

theorem resolveList_eq_map (module : Option String) (cs : List Node) :
    resolveList module cs = cs.map (resolve module) := by
  induction cs with
  | nil => rfl
  | cons c cs ih => rw [resolveList, ih, List.map_cons]

theorem resolveEntries_eq_map (module : Option String) (es : List (List Node)) :
    resolveEntries module es = es.map (resolveList module) := by
  induction es with
  | nil => rfl
  | cons e es ih => rw [resolveEntries, ih, List.map_cons]

mutual

/-- Which modules are written does not matter to what paths lead to. -/
theorem restrict_resolve (keep : NodePath → Bool) (parent : Option String) (node : Node) :
    (node.resolve parent).restrict keep = (node.restrict keep).resolve parent := by
  match node with
  | .container n cs => rw [resolve, restrict, restrict, resolve, restrictChildren_resolveList]
  | .list n es => rw [resolve, restrict, restrict, resolve, restrictEntries_resolveEntries]
  | .leaf n v => rfl
  | .leafList n vs => rfl

theorem restrictChildren_resolveList (keep : NodePath → Bool) (module : Option String) (i : Nat) (cs : List Node) :
    restrictChildren keep i (resolveList module cs) = resolveList module (restrictChildren keep i cs) := by
  match cs with
  | [] => rfl
  | c :: cs =>
    rw [resolveList, restrictChildren, restrictChildren, restrict_resolve _ module c,
      restrictChildren_resolveList keep module (i + 1) cs]
    split <;> rfl

theorem restrictEntries_resolveEntries (keep : NodePath → Bool) (module : Option String) (i : Nat)
    (es : List (List Node)) :
    restrictEntries keep i (resolveEntries module es) = resolveEntries module (restrictEntries keep i es) := by
  match es with
  | [] => rfl
  | e :: es =>
    rw [resolveEntries, restrictEntries, restrictEntries, restrictChildren_resolveList _ module 0 e,
      restrictEntries_resolveEntries keep module (i + 1) es]
    split <;> rfl

end

end Node

namespace FilterNode

open Node (resolve resolveList resolveEntries resolveList_eq_map resolveEntries_eq_map)

/-! ## No less than with every module written -/

mutual

theorem isSatisfied_of_resolve (parent : Option String) : ∀ (f : FilterNode) (node : Node),
    f.isSatisfied (node.resolve parent) = true → f.isSatisfied node = true
  | .content n t, node, h => by
    simp only [isSatisfied, Bool.and_eq_true, Node.name_resolve] at h ⊢
    refine ⟨NodeName.matches_of_resolve h.1, ?_⟩
    cases node <;> exact h.2
  | .containment n fs, node, h => by
    simp only [isSatisfied, Bool.and_eq_true, Bool.or_eq_true, Node.name_resolve] at h ⊢
    refine ⟨NodeName.matches_of_resolve h.1, h.2.imp_right fun hbelow => ?_⟩
    cases node with
    | container m cs => exact areSatisfied_of_resolve _ fs cs hbelow
    | list m es =>
      simp only [resolve, resolveEntries_eq_map, List.any_map, List.any_eq_true] at hbelow
      obtain ⟨e, he, hsat⟩ := hbelow
      exact List.any_eq_true.2 ⟨e, he, areSatisfied_of_resolve _ fs e hsat⟩
    | leaf m v => cases hbelow
    | leafList m vs => cases hbelow

theorem areSatisfied_of_resolve (module : Option String) : ∀ (fs : List FilterNode) (cs : List Node),
    areSatisfied fs (resolveList module cs) = true → areSatisfied fs cs = true
  | [], _, _ => rfl
  | f :: fs, cs, h => by
    simp only [areSatisfied, Bool.and_eq_true, resolveList_eq_map, List.any_map, List.any_eq_true] at h ⊢
    obtain ⟨⟨c, hc, hsat⟩, hrest⟩ := h
    rw [← resolveList_eq_map] at hrest
    exact ⟨⟨c, hc, isSatisfied_of_resolve module f c hsat⟩, areSatisfied_of_resolve module fs cs hrest⟩

end

mutual

theorem keeps_of_resolve (parent : Option String) : ∀ (f : FilterNode) (node : Node) (p : NodePath),
    f.keeps (node.resolve parent) p = true → f.keeps node p = true
  | .content n t, node, p, h => by
    cases node <;> cases p <;> exact h
  | .containment n fs, node, p, h => by
    match node, p with
    | _, [] => simp [keeps]
    | .container m cs, i :: p =>
      simp only [resolve, keeps, Bool.or_eq_true] at h ⊢
      exact h.imp_right (keepsAny_of_resolve _ fs cs i p)
    | .list m es, [i] =>
      simp only [resolve, keeps, Bool.or_eq_true, resolveEntries_eq_map, List.getElem?_map, Option.any_map,
        Option.any_eq_true] at h ⊢
      exact h.imp_right fun ⟨e, he, hsat⟩ => ⟨e, he, areSatisfied_of_resolve _ fs e hsat⟩
    | .list m es, i :: j :: p =>
      simp only [resolve, keeps, Bool.or_eq_true, Bool.and_eq_true, resolveEntries_eq_map, List.getElem?_map,
        Option.any_map, Option.any_eq_true] at h ⊢
      refine h.imp_right fun ⟨e, he, hsat, hkeep⟩ => ⟨e, he, areSatisfied_of_resolve _ fs e hsat, ?_⟩
      exact hkeep.imp_right (keepsAny_of_resolve _ fs e j p)
    | .leaf _ _, _ :: _ => simp [keeps]
    | .leafList _ _, _ :: _ => simp [keeps]

theorem keepsAny_of_resolve (module : Option String) : ∀ (fs : List FilterNode) (cs : List Node) (i : Nat)
    (p : NodePath), keepsAny fs (resolveList module cs) i p = true → keepsAny fs cs i p = true
  | [], _, _, _, h => h
  | f :: fs, cs, i, p, h => by
    simp only [keepsAny, Bool.or_eq_true, Bool.and_eq_true, resolveList_eq_map, List.getElem?_map, Option.any_map,
      Option.any_eq_true] at h ⊢
    rcases h with ⟨c, hc, hsat, hkeep⟩ | h
    · exact .inl ⟨c, hc, isSatisfied_of_resolve module f c hsat, keeps_of_resolve module f c p hkeep⟩
    · rw [← resolveList_eq_map] at h
      exact .inr (keepsAny_of_resolve module fs cs i p h)

end

/-! ## No more where modules are heeded -/

mutual

/-- Does a filter node that the node satisfies, and each below it, name no other module than the one that the node it
is satisfied by belongs to? -/
def Heeds (parent : Option String) : FilterNode → Node → Prop
  | .content n t, node =>
    (content n t).isSatisfied node = true → n.Matches (node.name.resolve parent) = true
  | .containment n fs, node =>
    (containment n fs).isSatisfied node = true → n.Matches (node.name.resolve parent) = true ∧
      ∀ siblings ∈ node.instances, areSatisfied fs siblings = true →
        HeedAll (node.name.effectiveModule parent) fs siblings

def HeedAll (module : Option String) : List FilterNode → List Node → Prop
  | [], _ => True
  | f :: fs, cs => (∀ c ∈ cs, Heeds module f c) ∧ HeedAll module fs cs

end

mutual

theorem isSatisfied_resolve (parent : Option String) : ∀ (f : FilterNode) (node : Node), f.Heeds parent node →
    f.isSatisfied node = true → f.isSatisfied (node.resolve parent) = true
  | .content n t, node, hheeds, h => by
    have hname := hheeds h
    simp only [isSatisfied, Bool.and_eq_true, Node.name_resolve] at h ⊢
    refine ⟨hname, ?_⟩
    cases node <;> exact h.2
  | .containment n fs, node, hheeds, h => by
    obtain ⟨hname, hbelow⟩ := hheeds h
    simp only [isSatisfied, Bool.and_eq_true, Bool.or_eq_true, Node.name_resolve] at h ⊢
    refine ⟨hname, h.2.imp_right fun hsat => ?_⟩
    cases node with
    | container m cs => exact areSatisfied_resolve _ fs cs (hbelow cs List.mem_cons_self hsat) hsat
    | list m es =>
      obtain ⟨e, he, hsat⟩ := List.any_eq_true.1 hsat
      simp only [resolve, resolveEntries_eq_map, List.any_map, List.any_eq_true]
      exact ⟨e, he, areSatisfied_resolve _ fs e (hbelow e he hsat) hsat⟩
    | leaf m v => cases hsat
    | leafList m vs => cases hsat

theorem areSatisfied_resolve (module : Option String) : ∀ (fs : List FilterNode) (cs : List Node),
    HeedAll module fs cs → areSatisfied fs cs = true → areSatisfied fs (resolveList module cs) = true
  | [], _, _, _ => rfl
  | f :: fs, cs, hheeds, h => by
    obtain ⟨hfirst, hrest⟩ := hheeds
    rw [areSatisfied, Bool.and_eq_true, List.any_eq_true] at h
    obtain ⟨⟨c, hc, hsat⟩, h⟩ := h
    rw [areSatisfied, Bool.and_eq_true, List.any_eq_true]
    refine ⟨⟨c.resolve module, ?_, isSatisfied_resolve module f c (hfirst c hc) hsat⟩,
      areSatisfied_resolve module fs cs hrest h⟩
    rw [resolveList_eq_map]
    exact List.mem_map_of_mem hc

end

mutual

theorem keeps_resolve (parent : Option String) : ∀ (f : FilterNode) (node : Node), f.Heeds parent node →
    f.isSatisfied node = true → ∀ p, f.keeps node p = true → f.keeps (node.resolve parent) p = true
  | .content n t, node, _, _, p, h => by
    cases node <;> cases p <;> exact h
  | .containment n fs, node, hheeds, hsat, p, h => by
    obtain ⟨-, hbelow⟩ := hheeds hsat
    match node, p with
    | _, [] => simp [keeps]
    | .container m cs, i :: p =>
      simp only [isSatisfied, Bool.and_eq_true, Bool.or_eq_true] at hsat
      simp only [resolve, keeps, Bool.or_eq_true] at h ⊢
      rcases hsat.2 with hempty | hsat
      · rw [List.isEmpty_iff] at hempty
        exact .inl (by rw [hempty]; rfl)
      · exact h.imp_right (keepsAny_resolve _ fs cs (hbelow cs List.mem_cons_self hsat) i p)
    | .list m es, [i] =>
      simp only [resolve, keeps, Bool.or_eq_true, resolveEntries_eq_map, List.getElem?_map, Option.any_map,
        Option.any_eq_true] at h ⊢
      refine h.imp_right fun ⟨e, he, hsat⟩ => ⟨e, he, ?_⟩
      exact areSatisfied_resolve _ fs e (hbelow e (List.mem_of_getElem? he) hsat) hsat
    | .list m es, i :: j :: p =>
      simp only [resolve, keeps, Bool.or_eq_true, Bool.and_eq_true, resolveEntries_eq_map, List.getElem?_map,
        Option.any_map, Option.any_eq_true] at h ⊢
      refine h.imp_right fun ⟨e, he, hsat, hkeep⟩ => ⟨e, he, ?_⟩
      have hheeded := hbelow e (List.mem_of_getElem? he) hsat
      exact ⟨areSatisfied_resolve _ fs e hheeded hsat, hkeep.imp_right (keepsAny_resolve _ fs e hheeded j p)⟩
    | .leaf _ _, _ :: _ => simp [resolve, keeps]
    | .leafList _ _, _ :: _ => simp [resolve, keeps]

theorem keepsAny_resolve (module : Option String) : ∀ (fs : List FilterNode) (cs : List Node), HeedAll module fs cs →
    ∀ (i : Nat) (p : NodePath), keepsAny fs cs i p = true → keepsAny fs (resolveList module cs) i p = true
  | [], _, _, _, _, h => h
  | f :: fs, cs, hheeds, i, p, h => by
    obtain ⟨hfirst, hrest⟩ := hheeds
    simp only [keepsAny, Bool.or_eq_true, Option.any_eq_true, Bool.and_eq_true] at h ⊢
    rcases h with ⟨c, hc, hsat, hkeep⟩ | h
    · have hheeded := hfirst c (List.mem_of_getElem? hc)
      refine .inl ⟨c.resolve module, ?_, isSatisfied_resolve module f c hheeded hsat,
        keeps_resolve module f c hheeded hsat p hkeep⟩
      rw [resolveList_eq_map, List.getElem?_map, hc, Option.map_some]
    · exact .inr (keepsAny_resolve module fs cs hrest i p h)

end

/-- A filter node that names a module is not satisfied by a node that names another. -/
theorem select_of_other_module {f : FilterNode} {node : Node} {m k : String} (hf : f.name.module = some m)
    (hnode : node.name.module = some k) (hne : m ≠ k) : f.select node = none := by
  have hmatches : f.name.Matches node.name = false := by simp [NodeName.Matches, hf, hnode, hne]
  have hnot : f.isSatisfied node = false := by
    cases f <;> exact Bool.and_eq_false_imp.2 fun h => absurd h (ne_true_of_eq_false hmatches)
  rw [← Option.not_isSome_iff_eq_none, (select_spec f node).isSome_eq, hnot]
  nofun

end FilterNode

/-! ## Filters -/

namespace SubtreeFilter

theorem accepts_of_resolve {f : SubtreeFilter} {body : Node} {parent : Option String}
    (h : f.accepts (body.resolve parent) = true) : f.accepts body = true := by
  rw [accepts_eq, Bool.or_eq_true, List.any_eq_true] at h ⊢
  exact h.imp_right fun ⟨r, hr, hsat⟩ => ⟨r, hr, r.isSatisfied_of_resolve parent body hsat⟩

theorem keeps_of_resolve {f : SubtreeFilter} {body : Node} {parent : Option String} {p : NodePath}
    (h : f.keeps (body.resolve parent) p = true) : f.keeps body p = true := by
  simp only [keeps, Bool.or_eq_true, List.any_eq_true, Bool.and_eq_true] at h ⊢
  refine h.imp_right fun hany => ?_
  obtain ⟨r, hr, hsat, hkeep⟩ := hany
  exact ⟨r, hr, r.isSatisfied_of_resolve parent body hsat, r.keeps_of_resolve parent body p hkeep⟩

section
variable {f : SubtreeFilter} {body : Node} {parent : Option String} (hheeds : ∀ r ∈ f.roots, r.Heeds parent body)
include hheeds

theorem accepts_resolve : f.accepts (body.resolve parent) = f.accepts body := by
  rw [Bool.eq_iff_iff]
  refine ⟨accepts_of_resolve, fun h => ?_⟩
  rw [accepts_eq, Bool.or_eq_true, List.any_eq_true] at h ⊢
  exact h.imp_right fun ⟨r, hr, hsat⟩ => ⟨r, hr, r.isSatisfied_resolve parent body (hheeds r hr) hsat⟩

theorem keeps_resolve : f.keeps (body.resolve parent) = f.keeps body := by
  funext p
  rw [Bool.eq_iff_iff]
  refine ⟨keeps_of_resolve, fun h => ?_⟩
  simp only [keeps, Bool.or_eq_true, List.any_eq_true, Bool.and_eq_true] at h ⊢
  refine h.imp_right fun hany => ?_
  obtain ⟨r, hr, hsat, hkeep⟩ := hany
  exact ⟨r, hr, r.isSatisfied_resolve parent body (hheeds r hr) hsat,
    r.keeps_resolve parent body (hheeds r hr) hsat p hkeep⟩

theorem prune_resolve : f.prune (body.resolve parent) = (f.prune body).map (·.resolve parent) := by
  rw [prune_eq, prune_eq, accepts_resolve hheeds, keeps_resolve hheeds, Node.restrict_resolve]
  split <;> rfl

end

/-- A filter accepts and keeps of a body no less than of the body with every inherited module written. If no filter
node is satisfied by a node that inherits another module than the one it names, it accepts both or neither, and what
it leaves of the one is what it leaves of the other, with every inherited module written. And no filter node that
names a module ever selects a node that names another. -/
theorem filtering_by_modules (f : SubtreeFilter) (body : Node) :
    (f.accepts (body.resolve none) = true → f.accepts body = true) ∧
    (∀ p, f.keeps (body.resolve none) p = true → f.keeps body p = true) ∧
    ((∀ r ∈ f.roots, r.Heeds none body) →
      f.accepts (body.resolve none) = f.accepts body ∧
      f.prune (body.resolve none) = (f.prune body).map (·.resolve none)) ∧
    ∀ (g : FilterNode) (node : Node) (m k : String), g.name.module = some m → node.name.module = some k → m ≠ k →
      g.select node = none :=
  ⟨accepts_of_resolve, fun _ => keeps_of_resolve, fun hheeds => ⟨accepts_resolve hheeds, prune_resolve hheeds⟩,
    fun _ _ _ _ hg hnode hne => FilterNode.select_of_other_module hg hnode hne⟩

/-- The filter names the module of a node that augments another module, and that of a node below it that inherits it. -/
theorem filtering_by_modules_of_augmented :
    let body : Node := .container (.qualified "m" "sensor")
      [.text "unit" "a", .container (.qualified "n" "reading") [.text "value" "7", .text "unit" "b"]]
    let f : SubtreeFilter :=
      ⟨[.containment (.qualified "m" "sensor")
        [.containment (.qualified "n" "reading") [.selection (.qualified "n" "unit")]]]⟩
    (∀ r ∈ f.roots, r.Heeds none body) ∧ f.accepts (body.resolve none) = true ∧ f.accepts body = true ∧
      f.keeps (body.resolve none) [1, 1] = true ∧ f.keeps body [1, 1] = true ∧
      f.prune (body.resolve none) = (f.prune body).map (·.resolve none) ∧
      f.prune body = some (.container (.qualified "m" "sensor")
        [.container (.qualified "n" "reading") [.text "unit" "b"]]) ∧
      (FilterNode.selection (.qualified "n" "sensor")).select body = none := by
  intro body f
  have hheeds : ∀ r ∈ f.roots, r.Heeds none body := by
    simp [f, body, FilterNode.Heeds, FilterNode.HeedAll, FilterNode.selection, FilterNode.isSatisfied,
      Node.instances, Node.name, Node.text, NodeName.Matches, NodeName.resolve, NodeName.effectiveModule,
      NodeName.qualified, NodeName.bare]
  obtain ⟨haccepts, hkeeps, hsame, hother⟩ := filtering_by_modules f body
  have haccepted : f.accepts (body.resolve none) = true := by cbv
  have hkept : f.keeps (body.resolve none) [1, 1] = true := by cbv
  exact ⟨hheeds, haccepted, haccepts haccepted, hkept, hkeeps [1, 1] hkept, (hsame hheeds).2, by cbv,
    hother _ body "n" "m" rfl rfl (by decide)⟩

/-- The node inherits the module of its parent, the filter names another and accepts it all the same; with the
inherited module written it does not. -/
theorem inherited_module_ignored :
    let body : Node := .container (.qualified "m" "a") [.text "b" "x"]
    let f : SubtreeFilter := ⟨[.containment (.qualified "m" "a") [.selection (.qualified "n" "b")]]⟩
    (some "m", Node.text "b" "x") ∈ body.nodes none ∧
      f.accepts body = true ∧ f.prune body = some body ∧ f.accepts (body.resolve none) = false := by
  intro body f
  refine ⟨?_, by cbv, by cbv, by cbv⟩
  simp [body, Node.nodes, Node.listNodes, Node.text, NodeName.qualified, NodeName.bare, NodeName.effectiveModule]

end SubtreeFilter

end YangSubscriptions
