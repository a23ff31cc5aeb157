import YangSubscriptions.Data.Xml
import YangSubscriptions.Proofs.Data.Modules
import YangSubscriptions.Proofs.Xml.Content

/-!
# XML encoding of data trees is read back

The element tree of a body is said without the writer: an element for each container, list entry, leaf and value, in
the namespace of the module that the node belongs to (`elements`). The writer declares a namespace only where the
module changes; that the default namespace around a node is always the one of its parent's module is what the
induction carries (`spells`). So every body whose names and namespaces can be written is read back
(`parse_toXml`).
-/

namespace YangSubscriptions

namespace Node

mutual

/-- The elements of a node below a parent of that module: one for each container, list entry, leaf and value of a
leaf-list, in the namespace of the module it belongs to. -/
def elements (s : Schema) (parent : Option String) : Node → List Xml.Element
  | .container n cs =>
    [.mk ((n.effectiveModule parent).bind s.xmlnsOf?) n.name "" (listElements s (n.effectiveModule parent) cs)]
  | .list n es => entryElements s (n.effectiveModule parent) n.name es
  | .leaf n v => [.mk ((n.effectiveModule parent).bind s.xmlnsOf?) n.name v.text []]
  | .leafList n vs => vs.map fun v => .mk ((n.effectiveModule parent).bind s.xmlnsOf?) n.name v.text []

def listElements (s : Schema) (module : Option String) : List Node → List Xml.Element
  | [] => []
  | n :: ns => elements s module n ++ listElements s module ns

def entryElements (s : Schema) (module : Option String) (name : String) : List (List Node) → List Xml.Element
  | [] => []
  | e :: es => .mk (module.bind s.xmlnsOf?) name "" (listElements s module e) :: entryElements s module name es

end

/-- A node whose name can be written, of a module whose namespace can. -/
def Writable (s : Schema) (d : Option String × Node) : Prop :=
  Xml.IsName d.2.name.name ∧ ∀ m ∈ d.1, ∃ ns ∈ s.xmlnsOf? m, Xml.IsNamespace ns

instance (s : Schema) (d : Option String × Node) : Decidable (Writable s d) := inferInstanceAs (Decidable (_ ∧ _))

/-- Where the module changes its namespace is declared, so that in the element the default namespace is that of the
node's module. -/
theorem exists_declared {s : Schema} {parent : Option String} {d : Node} {n : NodeName}
    (h : ∀ e ∈ d.nodes parent, Writable s e) (hn : d.name = n) :
    Xml.IsName n.name ∧ ∃ ns, declaredNamespace s parent n = .ok ns ∧ (∀ k ∈ ns, Xml.IsNamespace k) ∧
      Xml.inner (parent.bind s.xmlnsOf?) ns = (n.effectiveModule parent).bind s.xmlnsOf? := by
  subst hn
  obtain ⟨hname, hmodule⟩ := h _ (self_mem_nodes parent d)
  refine ⟨hname, ?_⟩
  unfold declaredNamespace
  split
  · rename_i hsame
    exact ⟨none, rfl, by simp, by simp [Xml.inner, hsame]⟩
  · rename_i hchange
    cases hown : d.name.module with
    | none => simp [NodeName.effectiveModule, hown] at hchange
    | some m =>
      have heff : d.name.effectiveModule parent = some m := by simp [NodeName.effectiveModule, hown]
      obtain ⟨ns, hns, hwritten⟩ := hmodule m (by simp [heff])
      refine ⟨some ns, by simp [Schema.namespaceOf, hown, Option.mem_def.1 hns], ?_, ?_⟩
      · intro k hk
        rwa [← Option.some.inj hk]
      · simpa [Xml.inner, heff] using (Option.mem_def.1 hns).symm

mutual

theorem spells (s : Schema) (parent : Option String) : ∀ n : Node, (∀ d ∈ n.nodes parent, Writable s d) →
    ∃ cs, n.xmlChars s parent (parent.bind s.xmlnsOf?) = .ok cs ∧
      Xml.Spells (parent.bind s.xmlnsOf?) cs (n.elements s parent)
  | .container n cs, h => by
    obtain ⟨hname, ns, hns, hwritten, hinner⟩ := exists_declared (n := n) h rfl
    obtain ⟨body, hbody, hspells⟩ := spells_list s (n.effectiveModule parent) cs fun d hd =>
      h d (by simp [nodes, hd])
    rw [← hinner] at hbody hspells
    rw [xmlChars, hns, elements, ← hinner]
    simp only [bind, Except.bind]
    split
    · rename_i hempty
      rw [List.isEmpty_iff.1 hempty, listElements]
      exact ⟨_, rfl, .empty hname hwritten⟩
    · rw [hbody]
      exact ⟨_, rfl, hspells.fills.element hname hwritten⟩
  | .list n es, h => by
    obtain ⟨hname, ns, hns, hwritten, hinner⟩ := exists_declared (n := n) h rfl
    have hentry : ∀ body xs, Xml.Spells ((n.effectiveModule parent).bind s.xmlnsOf?) body xs →
        Xml.Spells (parent.bind s.xmlnsOf?)
          (Xml.startTagChars (parent.bind s.xmlnsOf?) n.name ns ++ body ++ Xml.endTagChars n.name)
          [.mk ((n.effectiveModule parent).bind s.xmlnsOf?) n.name "" xs] := by
      intro body xs hbody
      rw [← hinner] at hbody ⊢
      exact hbody.fills.element hname hwritten
    obtain ⟨cs, hcs, hspells⟩ := spells_entries s (n.effectiveModule parent) hentry es fun d hd =>
      h d (by simp [nodes, hd])
    rw [xmlChars, hns, elements]
    simp only [bind, Except.bind]
    rw [hinner]
    exact ⟨cs, hcs, hspells⟩
  | .leaf n v, h => by
    obtain ⟨hname, ns, hns, hwritten, hinner⟩ := exists_declared (n := n) h rfl
    rw [xmlChars, hns, elements, ← hinner]
    exact ⟨_, rfl, Xml.spells_text hname hwritten v.text⟩
  | .leafList n vs, h => by
    obtain ⟨hname, ns, hns, hwritten, hinner⟩ := exists_declared (n := n) h rfl
    rw [xmlChars, hns, elements, ← hinner]
    refine ⟨_, rfl, ?_⟩
    clear h
    induction vs with
    | nil => exact .nil _
    | cons v vs ih =>
      rw [List.flatMap_cons, List.map_cons]
      exact (Xml.spells_text hname hwritten v.text).append ih

theorem spells_list (s : Schema) (module : Option String) : ∀ ns : List Node,
    (∀ d ∈ listNodes module ns, Writable s d) →
    ∃ cs, xmlList s module (module.bind s.xmlnsOf?) ns = .ok cs ∧
      Xml.Spells (module.bind s.xmlnsOf?) cs (listElements s module ns)
  | [], _ => ⟨[], rfl, .nil _⟩
  | n :: ns, h => by
    obtain ⟨a, ha, hspells⟩ := spells s module n fun d hd => h d (by simp [listNodes, hd])
    obtain ⟨b, hb, hspells'⟩ := spells_list s module ns fun d hd => h d (by simp [listNodes, hd])
    rw [xmlList, ha, hb, listElements]
    exact ⟨a ++ b, rfl, hspells.append hspells'⟩

/-- Each entry stands between tags of its own. -/
theorem spells_entries (s : Schema) (module : Option String) {current : Option String} {opening closing : List Char}
    {name : String} (hentry : ∀ body xs, Xml.Spells (module.bind s.xmlnsOf?) body xs →
      Xml.Spells current (opening ++ body ++ closing) [.mk (module.bind s.xmlnsOf?) name "" xs]) :
    ∀ es : List (List Node), (∀ d ∈ entryNodes module es, Writable s d) →
      ∃ cs, xmlEntries s module (module.bind s.xmlnsOf?) opening closing es = .ok cs ∧
        Xml.Spells current cs (entryElements s module name es)
  | [], _ => ⟨[], rfl, .nil _⟩
  | e :: es, h => by
    obtain ⟨a, ha, hspells⟩ := spells_list s module e fun d hd => h d (by simp [entryNodes, hd])
    obtain ⟨b, hb, hspells'⟩ := spells_entries s module hentry es fun d hd => h d (by simp [entryNodes, hd])
    rw [xmlEntries, ha, hb, entryElements]
    exact ⟨opening ++ a ++ closing ++ b, rfl, (hentry a _ hspells).append hspells'⟩

end

/-- What is written of a container or a leaf is read as the element tree of the node, to the last character of its
texts. -/
theorem parse_toXml (s : Schema) (body : Node) (hroot : (∃ n cs, body = .container n cs) ∨ ∃ n v, body = .leaf n v)
    (h : ∀ d ∈ body.nodes none, Writable s d) :
    ∃ text e, body.toXml s = .ok text ∧ body.elements s none = [e] ∧ Xml.parse text = .ok e := by
  rcases hroot with ⟨n, cs, rfl⟩ | ⟨n, v, rfl⟩
  · obtain ⟨hname, ns, hns, hwritten, hinner⟩ := exists_declared (n := n) h rfl
    obtain ⟨content, hcontent, hspells⟩ := spells_list s (n.effectiveModule none) cs fun d hd =>
      h d (by simp [nodes, hd])
    have hdefault : ns = (n.effectiveModule none).bind s.xmlnsOf? := (Xml.inner_none ns).symm.trans hinner
    rw [← hdefault] at hcontent hspells
    rw [toXml, xmlChars, hns, elements, ← hdefault]
    simp only [bind, Except.bind]
    split
    · rename_i hempty
      rw [List.isEmpty_iff.1 hempty, listElements]
      exact ⟨_, _, rfl, rfl, Xml.parse_empty hname hwritten⟩
    · rw [Xml.inner_none, hcontent]
      exact ⟨_, _, rfl, rfl, Xml.parse_element hname hwritten hspells.fills⟩
  · obtain ⟨hname, ns, hns, hwritten, hinner⟩ := exists_declared (n := n) h rfl
    have hdefault : ns = (n.effectiveModule none).bind s.xmlnsOf? := (Xml.inner_none ns).symm.trans hinner
    rw [toXml, xmlChars, hns, elements, ← hdefault]
    exact ⟨_, _, rfl, rfl, Xml.parse_text hname hwritten v.text⟩

/-- The module changes to and fro, the entries of a list repeat its declaration, and texts are empty, blank or full of
what needs escaping. -/
theorem parse_toXml_alternating :
    ∃ text e, (container ⟨some "a", "top"⟩
        [leaf (.bare "x") (.string " 1 < 2 & ]]> \"it's\" "),
          list ⟨some "b", "row"⟩
            [[leaf ⟨some "a", "k"⟩ (.number (.int 1)), leaf ⟨some "b", "v"⟩ .empty],
              [leaf ⟨some "a", "k"⟩ (.number (.int 2)), container (.bare "none") []]],
          leafList ⟨some "a", "tag"⟩ [.string "", .bool true]]).toXml
        ⟨[⟨"a", "urn:a", none⟩, ⟨"b", "urn:b", none⟩], []⟩ = .ok text ∧
      [Xml.Element.mk (some "urn:a") "top" ""
        [.mk (some "urn:a") "x" " 1 < 2 & ]]> \"it's\" " [],
          .mk (some "urn:b") "row" "" [.mk (some "urn:a") "k" "1" [], .mk (some "urn:b") "v" "" []],
          .mk (some "urn:b") "row" "" [.mk (some "urn:a") "k" "2" [], .mk (some "urn:b") "none" "" []],
          .mk (some "urn:a") "tag" "" [], .mk (some "urn:a") "tag" "true" []]] = [e] ∧
      Xml.parse text = .ok e :=
  parse_toXml ⟨[⟨"a", "urn:a", none⟩, ⟨"b", "urn:b", none⟩], []⟩ _ (.inl ⟨_, _, rfl⟩) (by decide +kernel)

end Node

end YangSubscriptions
