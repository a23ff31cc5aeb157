import YangSubscriptions.Filter.Xml
import YangSubscriptions.Proofs.Data.Json
import YangSubscriptions.Proofs.Filter.Reported

/-!
# Subtree filters in requests

A subtree filter comes as JSON or as XML, and there is a writing of it in both: members that are named by module and
local name or, in the simple form of RFC 7951, without a module that is in force (`FilterStyle.members`), and elements
in the namespaces of the modules (`FilterNode.elements`). Two decoders read them, one along each recursion. XML gives the
filter back (`ofXml_elements`), and so does JSON but for the modules that the simple form leaves out (`ofJson_members`).
-/

namespace YangSubscriptions

/-- What stands in JSON for a node that only selects. -/
inductive SelectionForm where
  | null
  | object
  | nulls
  deriving DecidableEq, Repr

def SelectionForm.value : SelectionForm → Json
  | null => .null
  | object => .object []
  | nulls => .array [.null]

/-- The freedom that JSON leaves to a filter: whether names have the simple form, how a node selects, which value has the
text that is to be matched, and whether a node is the one entry of an array. -/
structure FilterStyle where
  simple : Bool
  selection : NodeName → SelectionForm
  leaf : NodeName → String → LeafValue
  text_leaf : ∀ n t, (leaf n t).text = t
  listed : NodeName → Bool

namespace FilterStyle

variable (style : FilterStyle) (module : Option String)

def memberName (n : NodeName) : String := if style.simple then n.member module else n.render

/-- The value itself or an array of it. -/
def entry (n : NodeName) (v : Json) : Json := if style.listed n then .array [v] else v

mutual

/-- The value of a filter node's member below that module. -/
def value (module : Option String) : FilterNode → Json
  | .content n t => style.entry n (style.leaf n t).toJson
  | .containment n [] => (style.selection n).value
  | .containment n (f :: fs) => style.entry n (.ofMembers (members (n.effectiveModule module) (f :: fs)))

def members (module : Option String) : List FilterNode → List (String × Json)
  | [] => []
  | f :: fs => (style.memberName module f.name, value module f) :: members module fs

end

/-- The name that is read of the member. -/
def readName (n : NodeName) : NodeName := if style.simple then n.unprefixed module else n

/-- What is read of filter nodes: in the simple form nothing of the modules in force. -/
def readNode (f : FilterNode) : FilterNode := if style.simple then f.reported module else f

def readNodes (fs : List FilterNode) : List FilterNode := if style.simple then FilterNode.listReported module fs else fs

@[simp] theorem readNode_content (n : NodeName) (t : String) :
    style.readNode module (.content n t) = .content (style.readName module n) t := by
  unfold readNode readName
  split <;> rfl

@[simp] theorem readNode_containment (n : NodeName) (fs : List FilterNode) :
    style.readNode module (.containment n fs) =
      .containment (style.readName module n) (style.readNodes (n.effectiveModule module) fs) := by
  unfold readNode readName readNodes
  split <;> rfl

@[simp] theorem readNodes_nil : style.readNodes module [] = [] := by
  unfold readNodes
  split <;> rfl

@[simp] theorem readNodes_cons (f : FilterNode) (fs : List FilterNode) :
    style.readNodes module (f :: fs) = style.readNode module f :: style.readNodes module fs := by
  unfold readNodes readNode
  split <;> rfl

end FilterStyle

namespace FilterNode

mutual

/-- The element of a filter node, in the namespace of its module. -/
def element (s : Schema) : FilterNode → Xml.Element
  | .content n t => .mk (n.module.bind s.xmlnsOf?) n.name t []
  | .containment n fs => .mk (n.module.bind s.xmlnsOf?) n.name "" (elements s fs)

def elements (s : Schema) : List FilterNode → List Xml.Element
  | [] => []
  | f :: fs => element s f :: elements s fs

end

mutual

/-- The nodes of a filter node, itself the first. -/
def nodes : FilterNode → List FilterNode
  | .content n t => [.content n t]
  | .containment n fs => .containment n fs :: listNodes fs

def listNodes : List FilterNode → List FilterNode
  | [] => []
  | f :: fs => nodes f ++ listNodes fs

end

theorem self_mem_nodes (f : FilterNode) : f ∈ f.nodes := by cases f <;> simp [nodes]

/-- A name that both encodings can say: it is qualified by a module with a namespace, from which the schema leads back to
the module, and neither part is empty or has a colon. -/
def IsMapped (s : Schema) (n : NodeName) : Prop :=
  (n.name ≠ "" ∧ ColonFree n.name) ∧
    ∃ m ∈ n.module, (m ≠ "" ∧ ColonFree m) ∧ ∃ ns ∈ s.xmlnsOf? m, s.moduleOf? ns = some m

instance (s : Schema) (n : NodeName) : Decidable (IsMapped s n) := inferInstanceAs (Decidable (_ ∧ _))

/-- A node that both encodings can say: content is neither empty nor has it blanks at its ends, and the children have
different names. -/
def IsSayable (s : Schema) (f : FilterNode) : Prop :=
  IsMapped s f.name ∧ (∀ t ∈ f.text?, t ≠ "" ∧ Text.trim t = t) ∧ (f.children.map name).Nodup

instance (s : Schema) (f : FilterNode) : Decidable (IsSayable s f) := inferInstanceAs (Decidable (_ ∧ _))

theorem mem_listNodes_of_mem {f : FilterNode} {fs : List FilterNode} (h : f ∈ fs) : f ∈ listNodes fs := by
  induction fs with
  | nil => cases h
  | cons g fs ih =>
    rw [listNodes, List.mem_append]
    rcases List.mem_cons.1 h with rfl | h
    · exact .inl (self_mem_nodes f)
    · exact .inr (ih h)

/-! ## JSON -/

section
variable {s : Schema} (style : FilterStyle) (module : Option String)

theorem ofMember_memberName {n : NodeName} (h : IsMapped s n) :
    NodeName.ofMember (style.memberName module n) = .ok (style.readName module n) := by
  obtain ⟨⟨hname, hplain⟩, m, hm, hmodule, -⟩ := h
  rw [Option.mem_def] at hm
  have hreadable : n.Readable := ⟨hname, by rw [hm]; exact hmodule⟩
  unfold FilterStyle.memberName FilterStyle.readName
  split
  · exact NodeName.ofMember_member hreadable fun _ => hplain
  · exact NodeName.ofMember_render hreadable

/-- Names with modules are told apart although one of the modules is left out. -/
theorem readName_injective {n n' : NodeName} (h : IsMapped s n) (h' : IsMapped s n')
    (heq : style.readName module n = style.readName module n') : n = n' := by
  obtain ⟨-, m, hm, -⟩ := h
  obtain ⟨-, m', hm', -⟩ := h'
  obtain ⟨own, name⟩ := n
  obtain ⟨own', name'⟩ := n'
  rw [Option.mem_def] at hm hm'
  obtain rfl : own = some m := hm
  obtain rfl : own' = some m' := hm'
  unfold FilterStyle.readName NodeName.unprefixed at heq
  split at heq
  · split at heq <;> split at heq <;> simp_all [NodeName.bare]
  · exact heq

theorem memberName_injective {n n' : NodeName} (h : IsMapped s n) (h' : IsMapped s n')
    (heq : style.memberName module n = style.memberName module n') : n = n' := by
  have hread := ofMember_memberName style module h
  rw [heq, ofMember_memberName style module h'] at hread
  exact readName_injective style module h h' (Except.ok.inj hread).symm

theorem names_members (fs : List FilterNode) :
    (style.members module fs).map (·.1) = fs.map fun f => style.memberName module f.name := by
  induction fs with
  | nil => rfl
  | cons f fs ih => rw [FilterStyle.members, List.map_cons, ih]; rfl

/-- Siblings of different names are members of different names. -/
theorem ofMembers_members {fs : List FilterNode} (h : ∀ d ∈ listNodes fs, IsSayable s d) (hnames : (fs.map name).Nodup) :
    Json.ofMembers (style.members module fs) = .object (style.members module fs) := by
  apply Json.ofMembers_of_nodup
  rw [names_members]
  rw [List.Nodup, List.pairwise_map] at hnames ⊢
  refine hnames.imp_of_mem fun ha hb hne heq => hne ?_
  exact memberName_injective style module (h _ (mem_listNodes_of_mem ha)).1 (h _ (mem_listNodes_of_mem hb)).1 heq

end

section
variable (style : FilterStyle) (n name : NodeName) {v : Json} {f : FilterNode}

/-- What no array stands for is read the same of an array of it. -/
theorem ofJson_entry (h : ofJson name v = .ok [f]) (hnull : v.isNull = false) (harray : ∀ vs, v ≠ .array vs) :
    ofJson name (style.entry n v) = .ok [f] := by
  have hitems : ofItems name [v] = .ok [f] := by
    cases v with
    | array vs => exact absurd rfl (harray vs)
    | _ => exact ok_of_bind h rfl
  unfold FilterStyle.entry
  split
  · rw [ofJson, if_neg (by simp [hnull])]
    exact hitems
  · exact h

/-- A value matches its text. -/
theorem ofJson_toJson {w : LeafValue} (h : w.text ≠ "") :
    ofJson name (style.entry n w.toJson) = .ok [.content name w.text] := by
  cases w with
  | empty => exact absurd rfl h
  | string t => exact ofJson_entry style n name rfl rfl nofun
  | number t => exact ofJson_entry style n name rfl rfl nofun
  | bool b => exact ofJson_entry style n name (by cases b <;> rfl) rfl nofun

end

mutual

theorem ofJson_value {s : Schema} (style : FilterStyle) (module : Option String) : ∀ f : FilterNode,
    (∀ d ∈ f.nodes, IsSayable s d) →
    ofJson (style.readName module f.name) (style.value module f) = .ok [style.readNode module f]
  | .content n t, h => by
    have hne : t ≠ "" := ((h _ (self_mem_nodes _)).2.1 t rfl).1
    have htext := style.text_leaf n t
    have hread := ofJson_toJson style n (style.readName module n) (htext ▸ hne)
    rw [htext] at hread
    rw [name, FilterStyle.value, FilterStyle.readNode_content, hread]
  | .containment n [], _ => by
    rw [FilterStyle.value, FilterStyle.readNode_containment, FilterStyle.readNodes_nil]
    cases style.selection n <;> rfl
  | .containment n (f :: fs), h => by
    have hnames := (h _ (self_mem_nodes _)).2.2
    have hnodes : ∀ d ∈ listNodes (f :: fs), IsSayable s d := fun d hd => h d (by simp [nodes, hd])
    have hbelow := ofMembers_eq style (n.effectiveModule module) (f :: fs) hnodes
    have hobject : ofJson (style.readName module n) (.object (style.members (n.effectiveModule module) (f :: fs))) =
        .ok [style.readNode module (.containment n (f :: fs))] := by
      rw [ofJson, FilterStyle.readNode_containment]
      exact ok_of_bind hbelow rfl
    rw [FilterStyle.value, ofMembers_members style _ hnodes hnames]
    exact ofJson_entry style n _ hobject rfl nofun

theorem ofMembers_eq {s : Schema} (style : FilterStyle) (module : Option String) : ∀ fs : List FilterNode,
    (∀ d ∈ listNodes fs, IsSayable s d) → ofMembers (style.members module fs) = .ok (style.readNodes module fs)
  | [], _ => by
    rw [FilterStyle.readNodes_nil]
    rfl
  | f :: fs, h => by
    simp only [listNodes, List.mem_append] at h
    have hname := ofMember_memberName style module (h _ (.inl (self_mem_nodes f))).1
    have hfirst := ofJson_value style module f fun d hd => h d (.inl hd)
    have hrest := ofMembers_eq style module fs fun d hd => h d (.inr hd)
    rw [FilterStyle.members, ofMembers, FilterStyle.readNodes_cons]
    exact ok_of_bind hname (ok_of_bind hfirst (ok_of_bind hrest rfl))

end

/-! ## XML -/

theorem elementName_of_isMapped {s : Schema} {n : NodeName} (h : IsMapped s n) (body : String) (es : List Xml.Element) :
    elementName s (.mk (n.module.bind s.xmlnsOf?) n.name body es) = .ok n := by
  obtain ⟨-, m, hm, -, ns, hns, hback⟩ := h
  obtain ⟨module, name⟩ := n
  rw [Option.mem_def] at hm hns
  obtain rfl : module = some m := hm
  simp [elementName, Xml.Element.namespaceName, Xml.Element.name, hns, hback, NodeName.qualified]

mutual

theorem ofElement_element {s : Schema} : ∀ f : FilterNode, (∀ d ∈ f.nodes, IsSayable s d) →
    ofElement s (f.element s) = .ok f
  | .content n t, h => by
    obtain ⟨hname, htext, -⟩ := h _ (self_mem_nodes _)
    obtain ⟨hne, htrim⟩ := htext t rfl
    rw [element, ofElement]
    refine ok_of_bind (elementName_of_isMapped hname t []) ?_
    simp [htrim, hne, name]
  | .containment n fs, h => by
    obtain ⟨hname, -, -⟩ := h _ (self_mem_nodes _)
    have hbelow := ofElements_elements fs fun d hd => h d (by simp [nodes, hd])
    rw [element, ofElement]
    refine ok_of_bind (elementName_of_isMapped hname "" _) ?_
    cases fs with
    | nil => rfl
    | cons f fs =>
      rw [elements] at hbelow ⊢
      exact ok_of_bind hbelow rfl

theorem ofElements_elements {s : Schema} : ∀ fs : List FilterNode, (∀ d ∈ listNodes fs, IsSayable s d) →
    ofElements s (elements s fs) = .ok fs
  | [], _ => rfl
  | f :: fs, h => by
    simp only [listNodes, List.mem_append] at h
    have hfirst := ofElement_element f fun d hd => h d (.inl hd)
    have hrest := ofElements_elements fs fun d hd => h d (.inr hd)
    rw [elements, ofElements]
    exact ok_of_bind hfirst (ok_of_bind hrest rfl)

end

end FilterNode

namespace SubtreeFilter

/-- A filter that both encodings can say. -/
def IsSayable (s : Schema) (f : SubtreeFilter) : Prop :=
  (f.roots.map FilterNode.name).Nodup ∧ ∀ d ∈ FilterNode.listNodes f.roots, d.IsSayable s

instance (s : Schema) (f : SubtreeFilter) : Decidable (f.IsSayable s) := inferInstanceAs (Decidable (_ ∧ _))

variable {s : Schema} {f : SubtreeFilter}

/-- The filter as it is read from JSON. -/
def asRead (style : FilterStyle) (f : SubtreeFilter) : SubtreeFilter := if style.simple then f.reported else f

/-- The members of a filter, which stand below a node of the protocol's module. -/
def members (style : FilterStyle) (f : SubtreeFilter) : List (String × Json) :=
  style.members (some subscribedNotifications) f.roots

theorem ofJson_members (h : f.IsSayable s) (style : FilterStyle) :
    ofJson (.ofMembers (f.members style)) = .ok (f.asRead style) := by
  have hread : f.asRead style = ⟨style.readNodes (some subscribedNotifications) f.roots⟩ := by
    unfold asRead FilterStyle.readNodes
    split <;> rfl
  rw [members, FilterNode.ofMembers_members style _ h.2 h.1, ofJson, FilterNode.ofMembers_eq style _ f.roots h.2, hread]
  rfl

theorem ofXml_elements (h : f.IsSayable s) {e : Xml.Element} (hchildren : e.children = FilterNode.elements s f.roots) :
    ofXml s e = .ok f := by
  rw [ofXml, hchildren, FilterNode.ofElements_elements f.roots h.2]
  rfl

end SubtreeFilter

end YangSubscriptions
