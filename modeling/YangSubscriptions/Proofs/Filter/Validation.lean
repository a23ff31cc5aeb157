import YangSubscriptions.Filter.Validation
import YangSubscriptions.Proofs.Except

/-!
# Which filters are valid

A filter is valid if each of its nodes can stand for some schema node that its name matches, each below one that the
node above it stands for (`SubtreeFilter.Valid`). The check tries the first such schema node only and never returns
to a later one, so it accepts the valid filters none of whose nodes is shadowed there: the first candidate does not
take it and a later one would (`validate_iff`). Where siblings have names of their own nothing is shadowed, and where
two modules share a name a valid filter is turned away (`secondNotification_rejected`).
-/

namespace YangSubscriptions

namespace SchemaNode

/-- The nodes that a name matches among siblings whose parent belongs to `parent`, each with its module. -/
def named (siblings : List SchemaNode) (parent : Option String) (name : NodeName) :
    List (SchemaNode × Option String) :=
  (siblings.filter fun n => name.Matches (n.qualifiedName parent)).map fun n => (n, n.module.or parent)

theorem child?_eq (n : SchemaNode) (own : Option String) (name : NodeName) :
    n.child? own name = (named n.children own name).head? := by
  rw [child?, named, List.head?_map, List.head?_filter]

/-- No two siblings have the same local name, at any depth. -/
inductive Distinct : List SchemaNode → Prop
  | intro {siblings : List SchemaNode} (names : (siblings.map name).Nodup)
      (below : ∀ n ∈ siblings, Distinct n.children) : Distinct siblings

/-- Of siblings with names of their own a name matches one at most. -/
theorem Distinct.named_eq {siblings : List SchemaNode} (h : Distinct siblings) {parent : Option String}
    {name : NodeName} {first : SchemaNode × Option String} {others : List (SchemaNode × Option String)}
    (hnamed : named siblings parent name = first :: others) : others = [] ∧ Distinct first.1.children := by
  obtain ⟨hnames, hbelow⟩ := h
  obtain ⟨n, ns, hfilter, rfl, rfl⟩ := List.map_eq_cons_iff.1 hnamed
  have hmem : ∀ c ∈ n :: ns, c ∈ siblings ∧ c.name = name.name := by
    intro c hc
    rw [← hfilter, List.mem_filter] at hc
    obtain ⟨hc, hmatches⟩ := hc
    simp only [NodeName.Matches, Bool.and_eq_true, decide_eq_true_eq] at hmatches
    exact ⟨hc, hmatches.1.symm⟩
  have hnodup : ((n :: ns).map SchemaNode.name).Nodup := by
    rw [← hfilter]
    exact hnames.sublist (List.filter_sublist.map _)
  refine ⟨?_, hbelow n (hmem n List.mem_cons_self).1⟩
  cases ns with
  | nil => rfl
  | cons m ns =>
    have hsame : n.name = m.name := by rw [(hmem n (by simp)).2, (hmem m (by simp)).2]
    rw [List.map_cons, List.map_cons, List.nodup_cons, hsame] at hnodup
    exact absurd List.mem_cons_self hnodup.1

end SchemaNode

theorem Schema.notification?_eq (s : Schema) (name : NodeName) :
    (s.notification? name).map (fun n => (n, n.module)) = (SchemaNode.named s.notifications none name).head? := by
  have hmodule : (fun n : SchemaNode => (n, n.module.or none)) = fun n => (n, n.module) := by
    funext n
    rw [Option.or_none]
  rw [notification?, SchemaNode.named, List.head?_map, List.head?_filter, hmodule]

namespace FilterNode

open SchemaNode (named Distinct)

/-! ## Validity -/

mutual

/-- Can the filter node stand for that schema node, whose module is `module`? Content needs a leaf, and what is below
another node finds its schema nodes among the children. -/
def StandsFor (node : SchemaNode) (module : Option String) : FilterNode → Prop
  | .content _ _ => node.kind.isLeaf = true
  | .containment _ fs => (fs ≠ [] → node.kind.isLeaf = false) ∧ StandAmong node.children module fs

/-- Can each filter node stand for one of the siblings that its name matches? -/
def StandAmong (siblings : List SchemaNode) (parent : Option String) : List FilterNode → Prop
  | [] => True
  | f :: fs => (∃ c ∈ named siblings parent f.name, StandsFor c.1 c.2 f) ∧ StandAmong siblings parent fs

end

mutual

/-- Is a filter node below shadowed, where each stands for the first schema node that its name matches? -/
def ShadowsBelow (node : SchemaNode) (module : Option String) : FilterNode → Prop
  | .content _ _ => False
  | .containment _ fs => ShadowedAmong node.children module fs

/-- Is there a filter node that the first sibling of its name does not take although another one does, or one below? -/
def ShadowedAmong (siblings : List SchemaNode) (parent : Option String) : List FilterNode → Prop
  | [] => False
  | f :: fs => (∃ first ∈ (named siblings parent f.name).head?,
      (¬ StandsFor first.1 first.2 f ∧ ∃ c ∈ named siblings parent f.name, StandsFor c.1 c.2 f) ∨
        ShadowsBelow first.1 first.2 f) ∨
    ShadowedAmong siblings parent fs

end

section
variable {siblings : List SchemaNode} {parent : Option String} {f : FilterNode} {fs : List FilterNode}

theorem not_standAmong_cons (h : named siblings parent f.name = []) : ¬ StandAmong siblings parent (f :: fs) := by
  rw [StandAmong, h]
  simp

/-- Of filter nodes whose first candidates are checked one after the other, all stand for some candidate and none is
shadowed. -/
theorem standAmong_cons_iff {first : SchemaNode × Option String} {others : List (SchemaNode × Option String)}
    (hnamed : named siblings parent f.name = first :: others) :
    ((f.StandsFor first.1 first.2 ∧ ¬ f.ShadowsBelow first.1 first.2) ∧
        StandAmong siblings parent fs ∧ ¬ ShadowedAmong siblings parent fs) ↔
      StandAmong siblings parent (f :: fs) ∧ ¬ ShadowedAmong siblings parent (f :: fs) := by
  have hfirst : first ∈ named siblings parent f.name := hnamed ▸ List.mem_cons_self
  rw [StandAmong, ShadowedAmong, hnamed, List.head?_cons, ← hnamed]
  simp only [Option.mem_def, Option.some.injEq, exists_eq_left']
  constructor
  · rintro ⟨⟨hstands, hbelow⟩, hrest, hclear⟩
    refine ⟨⟨⟨first, hfirst, hstands⟩, hrest⟩, ?_⟩
    rintro ((⟨hnot, -⟩ | hshadows) | hshadowed)
    · exact hnot hstands
    · exact hbelow hshadows
    · exact hclear hshadowed
  · rintro ⟨⟨hany, hrest⟩, hclear⟩
    rw [not_or, not_or] at hclear
    obtain ⟨⟨hnot, hbelow⟩, hclear⟩ := hclear
    exact ⟨⟨Classical.byContradiction fun h => hnot ⟨h, hany⟩, hbelow⟩, hrest, hclear⟩

end

/-! ## What the check accepts -/

mutual

/-- A node passes the check exactly when it stands for the schema node and nothing below it is shadowed. -/
theorem check_eq_ok_iff (node : SchemaNode) (module : Option String) (path : String) : ∀ f : FilterNode,
    f.check node module path = .ok () ↔ f.StandsFor node module ∧ ¬ f.ShadowsBelow node module
  | .content n t => by
    rw [check, StandsFor, ShadowsBelow]
    cases node.kind.isLeaf <;> simp
  | .containment n fs => by
    have hbelow := checkChildren_eq_ok_iff node module path fs
    rw [check, StandsFor, ShadowsBelow]
    cases hleaf : node.kind.isLeaf with
    | false => simp [hbelow]
    | true =>
      cases fs with
      | nil => simp [hbelow]
      | cons f fs => simp

theorem checkChildren_eq_ok_iff (node : SchemaNode) (module : Option String) (path : String) :
    ∀ fs : List FilterNode, checkChildren node module path fs = .ok () ↔
      StandAmong node.children module fs ∧ ¬ ShadowedAmong node.children module fs
  | [] => by simp [checkChildren, StandAmong, ShadowedAmong]
  | f :: fs => by
    rw [checkChildren, SchemaNode.child?_eq]
    cases hnamed : named node.children module f.name with
    | nil => simp [not_standAmong_cons hnamed]
    | cons first others =>
      rw [← standAmong_cons_iff hnamed, ← check_eq_ok_iff first.1 first.2 (path ++ "/" ++ f.name.render) f,
        ← checkChildren_eq_ok_iff node module path fs]
      exact check_bind_eq_ok_iff

end

/-! ## Names of their own -/

mutual

/-- Where siblings have distinct names nothing is shadowed. -/
theorem not_shadowsBelow {node : SchemaNode} (h : Distinct node.children) (module : Option String) :
    ∀ f : FilterNode, f.StandsFor node module → ¬ f.ShadowsBelow node module
  | .content _ _, _ => nofun
  | .containment _ fs, hstands => not_shadowedAmong h module fs hstands.2

theorem not_shadowedAmong {siblings : List SchemaNode} (h : Distinct siblings) (parent : Option String) :
    ∀ fs : List FilterNode, StandAmong siblings parent fs → ¬ ShadowedAmong siblings parent fs
  | [], _ => nofun
  | f :: fs, ⟨⟨c, hc, hstands⟩, hrest⟩ => by
    rw [ShadowedAmong]
    rintro (⟨first, hfirst, hshadows⟩ | hshadowed)
    · obtain ⟨others, hnamed⟩ := List.head?_eq_some_iff.1 hfirst
      obtain ⟨rfl, hbelow⟩ := h.named_eq hnamed
      rw [hnamed, List.mem_singleton] at hc
      subst hc
      rcases hshadows with ⟨hnot, -⟩ | hshadows
      · exact hnot hstands
      · exact not_shadowsBelow hbelow c.2 f hstands hshadows
    · exact not_shadowedAmong h parent fs hrest hshadowed

end

end FilterNode

namespace SubtreeFilter

open FilterNode (StandAmong ShadowedAmong)

/-- Can every filter node stand for a schema node of its name, the roots for notifications? -/
def Valid (f : SubtreeFilter) (s : Schema) : Prop := StandAmong s.notifications none f.roots

/-- Does the first notification or child of a filter node's name not take it although another one does? -/
def Shadowed (f : SubtreeFilter) (s : Schema) : Prop := ShadowedAmong s.notifications none f.roots

theorem checkRoots_eq_ok_iff (s : Schema) (fs : List FilterNode) :
    checkRoots s fs = .ok () ↔ StandAmong s.notifications none fs ∧ ¬ ShadowedAmong s.notifications none fs := by
  induction fs with
  | nil => simp [checkRoots, StandAmong, ShadowedAmong]
  | cons f fs ih =>
    have hnotification := s.notification?_eq f.name
    rw [checkRoots]
    cases hnamed : SchemaNode.named s.notifications none f.name with
    | nil =>
      rw [hnamed, List.head?_nil, Option.map_eq_none_iff] at hnotification
      simp [hnotification, FilterNode.not_standAmong_cons hnamed]
    | cons first others =>
      rw [hnamed, List.head?_cons] at hnotification
      obtain ⟨n, hn, rfl⟩ := Option.map_eq_some_iff.1 hnotification
      rw [← FilterNode.standAmong_cons_iff hnamed, ← FilterNode.check_eq_ok_iff n n.module f.name.render f, ← ih, hn]
      exact check_bind_eq_ok_iff

/-- The check accepts the valid filters that nothing is shadowed in, and these are all valid ones where siblings of the
schema have names of their own. -/
theorem validate_iff (f : SubtreeFilter) (s : Schema) :
    (f.validate s = .ok () ↔ f.Valid s ∧ ¬ f.Shadowed s) ∧
      (SchemaNode.Distinct s.notifications → (f.validate s = .ok () ↔ f.Valid s)) := by
  have hexact : f.validate s = .ok () ↔ f.Valid s ∧ ¬ f.Shadowed s := checkRoots_eq_ok_iff s f.roots
  refine ⟨hexact, fun hdistinct => ?_⟩
  rw [hexact]
  exact ⟨fun h => h.1, fun h => ⟨h, FilterNode.not_shadowedAmong hdistinct none f.roots h⟩⟩

/-- A notification with one leaf. -/
def event (module leaf : String) : SchemaNode := .mk (some module) "event" .container [] [.mk none leaf .leaf [] []]

/-- A filter for the second of two notifications of one name is valid, and it is turned away since the first one has no
such leaf. -/
theorem secondNotification_rejected :
    let s : Schema := ⟨[], [event "m" "a", event "n" "b"]⟩
    let f : SubtreeFilter := ⟨[.containment (.bare "event") [.selection (.bare "b")]]⟩
    f.Valid s ∧ f.validate s = .error (.unknownNode "event/b") := by
  intro s f
  have hroots : SchemaNode.named s.notifications none (.bare "event") =
      [(event "m" "a", some "m"), (event "n" "b", some "n")] := rfl
  have hleaf : SchemaNode.named (event "n" "b").children (some "n") (.bare "b") =
      [(.mk none "b" .leaf [] [], some "n")] := rfl
  have hselects : StandAmong (event "n" "b").children (some "n") [.selection (.bare "b")] :=
    ⟨⟨_, hleaf ▸ List.mem_cons_self, nofun, trivial⟩, trivial⟩
  refine ⟨⟨⟨(event "n" "b", some "n"), ?_, fun _ => rfl, hselects⟩, trivial⟩, rfl⟩
  exact hroots ▸ List.mem_cons_of_mem _ List.mem_cons_self

end SubtreeFilter

end YangSubscriptions
