import YangSubscriptions.Proofs.Data.Modules
import YangSubscriptions.Proofs.Filter.Validation
import YangSubscriptions.Service.Delivery

/-!
# The terms of a subscription can be told

What the XML encoding needs of a body is a namespace for each module that a name in it is qualified by
(`exists_xmlChars`). A filter that is valid under a schema names no other modules than the schema does: a name with a
module finds only schema nodes of that module (`Homes.known`), and the nodes below it are looked for where the induction
has a module with a namespace again (`known_of_standAmong`). So where the schema gives a namespace to each module that it
names, the terms of a subscription whose filter was accepted are told in either encoding (`terms_told`).
-/

namespace YangSubscriptions

/-- If the name is qualified by a module, the module has a namespace. -/
def NodeName.Known (s : Schema) (n : NodeName) : Prop := ∀ m ∈ n.module, (s.xmlnsOf? m).isSome = true

namespace Node

/-! ## What the encoding needs -/

theorem exists_declaredNamespace {s : Schema} {n : NodeName} (h : n.Known s) (parent : Option String) :
    ∃ ns, declaredNamespace s parent n = .ok ns := by
  unfold declaredNamespace
  split
  · exact ⟨none, rfl⟩
  · cases hm : n.module with
    | none => exact ⟨none, by rw [Schema.namespaceOf, hm]⟩
    | some m =>
      obtain ⟨ns, hns⟩ := Option.isSome_iff_exists.1 (h m hm)
      exact ⟨some ns, by simp only [Schema.namespaceOf, hm, hns]⟩

mutual

/-- A node whose names are known is encoded, wherever it stands. -/
theorem exists_xmlChars {s : Schema} (parent current : Option String) : ∀ n : Node,
    (∀ d ∈ n.nodes parent, d.2.name.Known s) → ∃ cs, n.xmlChars s parent current = .ok cs
  | .container n cs, h => by
    obtain ⟨ns, hns⟩ := exists_declaredNamespace (h _ (self_mem_nodes parent _)) parent
    obtain ⟨body, hbody⟩ := exists_xmlList (n.effectiveModule parent) (Xml.inner current ns) cs fun d hd =>
      h d (by simp [nodes, hd])
    rw [name] at hns
    rw [xmlChars, hns]
    simp only [bind, Except.bind]
    split
    · exact ⟨_, rfl⟩
    · rw [hbody]
      exact ⟨_, rfl⟩
  | .list n es, h => by
    obtain ⟨ns, hns⟩ := exists_declaredNamespace (h _ (self_mem_nodes parent _)) parent
    obtain ⟨cs, hcs⟩ := exists_xmlEntries (n.effectiveModule parent) (Xml.inner current ns)
      (Xml.startTagChars current n.name ns) (Xml.endTagChars n.name) es fun d hd => h d (by simp [nodes, hd])
    rw [name] at hns
    rw [xmlChars, hns]
    exact ⟨cs, hcs⟩
  | .leaf n v, h => by
    obtain ⟨ns, hns⟩ := exists_declaredNamespace (h _ (self_mem_nodes parent _)) parent
    rw [name] at hns
    rw [xmlChars, hns]
    exact ⟨_, rfl⟩
  | .leafList n vs, h => by
    obtain ⟨ns, hns⟩ := exists_declaredNamespace (h _ (self_mem_nodes parent _)) parent
    rw [name] at hns
    rw [xmlChars, hns]
    exact ⟨_, rfl⟩

theorem exists_xmlList {s : Schema} (module current : Option String) : ∀ ns : List Node,
    (∀ d ∈ listNodes module ns, d.2.name.Known s) → ∃ cs, xmlList s module current ns = .ok cs
  | [], _ => ⟨[], rfl⟩
  | n :: ns, h => by
    obtain ⟨a, ha⟩ := exists_xmlChars module current n fun d hd => h d (by simp [listNodes, hd])
    obtain ⟨b, hb⟩ := exists_xmlList module current ns fun d hd => h d (by simp [listNodes, hd])
    rw [xmlList, ha, hb]
    exact ⟨a ++ b, rfl⟩

theorem exists_xmlEntries {s : Schema} (module current : Option String) (opening closing : List Char) :
    ∀ es : List (List Node), (∀ d ∈ entryNodes module es, d.2.name.Known s) →
      ∃ cs, xmlEntries s module current opening closing es = .ok cs
  | [], _ => ⟨[], rfl⟩
  | e :: es, h => by
    obtain ⟨a, ha⟩ := exists_xmlList module current e fun d hd => h d (by simp [entryNodes, hd])
    obtain ⟨b, hb⟩ := exists_xmlEntries module current opening closing es fun d hd => h d (by simp [entryNodes, hd])
    rw [xmlEntries, ha, hb]
    exact ⟨opening ++ a ++ closing ++ b, rfl⟩

end

end Node

/-! ## Schemas that give namespaces -/

/-- Each module that the node or one below it names has a namespace. -/
inductive SchemaNode.Namespaced (s : Schema) : SchemaNode → Prop
  | intro {n : SchemaNode} (own : ∀ m ∈ n.module, (s.xmlnsOf? m).isSome = true)
      (below : ∀ c ∈ n.children, Namespaced s c) : Namespaced s n

/-- Every notification names a module, and each module that a schema node names has a namespace. -/
def Schema.Namespaced (s : Schema) : Prop := ∀ n ∈ s.notifications, n.module.isSome = true ∧ n.Namespaced s

namespace FilterNode

open SchemaNode (named)

/-- Siblings each of which belongs to a module with a namespace, and below which there are only such modules. -/
def Homes (s : Schema) (siblings : List SchemaNode) (parent : Option String) : Prop :=
  ∀ n ∈ siblings, n.Namespaced s ∧ ∃ m ∈ n.module.or parent, (s.xmlnsOf? m).isSome = true

section
variable {s : Schema} {siblings : List SchemaNode} {parent : Option String} {name : NodeName}
  {c : SchemaNode × Option String}

/-- A name that finds one of them has no other module. -/
theorem Homes.known (h : Homes s siblings parent) (hc : c ∈ named siblings parent name) : name.Known s := by
  obtain ⟨n, hn, rfl⟩ := List.mem_map.1 hc
  rw [List.mem_filter] at hn
  obtain ⟨-, m, hm, hns⟩ := h n hn.1
  intro own hown
  have hmodules := hn.2
  rw [Option.mem_def] at hown hm
  simp only [NodeName.Matches, SchemaNode.qualifiedName, hown, hm, Bool.and_eq_true, decide_eq_true_eq] at hmodules
  rwa [hmodules.2]

/-- The children of what is found are such siblings again. -/
theorem Homes.children (h : Homes s siblings parent) (hc : c ∈ named siblings parent name) :
    Homes s c.1.children c.2 := by
  obtain ⟨n, hn, rfl⟩ := List.mem_map.1 hc
  obtain ⟨⟨-, hbelow⟩, m, hm, hns⟩ := h n (List.mem_filter.1 hn).1
  intro d hd
  obtain ⟨hown, hdeeper⟩ := hbelow d hd
  refine ⟨⟨hown, hdeeper⟩, ?_⟩
  cases hmodule : d.module with
  | none => exact ⟨m, by simpa using hm, hns⟩
  | some k => exact ⟨k, by simp, hown k hmodule⟩

theorem homes_notifications (h : s.Namespaced) : Homes s s.notifications none := by
  intro n hn
  obtain ⟨hmodule, hown, hbelow⟩ := h n hn
  obtain ⟨m, hm⟩ := Option.isSome_iff_exists.1 hmodule
  exact ⟨⟨hown, hbelow⟩, m, by simp [hm], hown m hm⟩

end

/-! ## Valid filters as data -/

mutual

theorem known_of_standsFor {s : Schema} {node : SchemaNode} {module : Option String} (h : Homes s node.children module)
    (parent : Option String) : ∀ f : FilterNode, f.name.Known s → StandsFor node module f →
      ∀ d ∈ f.toNode.nodes parent, d.2.name.Known s
  | .content n t, hname, _ => by
    intro d hd
    obtain rfl := List.mem_singleton.1 hd
    exact hname
  | .containment n fs, hname, hstands => by
    intro d hd
    rcases List.mem_cons.1 hd with rfl | hd
    · exact hname
    · exact known_of_standAmong h (n.effectiveModule parent) fs hstands.2 d hd

/-- The names of filter nodes that stand for schema nodes with namespaces are known, for whatever module they are
reported below. -/
theorem known_of_standAmong {s : Schema} {siblings : List SchemaNode} {module : Option String}
    (h : Homes s siblings module) (parent : Option String) : ∀ fs : List FilterNode, StandAmong siblings module fs →
      ∀ d ∈ Node.listNodes parent (listToNodes fs), d.2.name.Known s
  | [], _ => nofun
  | f :: fs, ⟨⟨c, hc, hstands⟩, hrest⟩ => by
    intro d hd
    rcases List.mem_append.1 hd with hd | hd
    · exact known_of_standsFor (h.children hc) parent f (h.known hc) hstands d hd
    · exact known_of_standAmong h parent fs hrest d hd

end

end FilterNode

/-! ## Terms -/

section
variable {s : Schema} {streams : Streams}

/-- What is reported of an accepted filter has known names: a subtree filter is valid, and of any other filter nothing is
reported but a text. -/
theorem StreamFilter.known_toNode (h : s.Namespaced) {f : StreamFilter} {r : ResolvedFilter}
    (hresolve : streams.resolve s (some f) = .ok r) (parent : Option String) :
    ∀ d ∈ f.toNode.nodes parent, d.2.name.Known s := by
  have hbare : ∀ name, (NodeName.bare name).Known s := fun _ => nofun
  cases f with
  | path p =>
    intro d hd
    obtain rfl := List.mem_singleton.1 hd
    exact hbare _
  | named name =>
    intro d hd
    obtain rfl := List.mem_singleton.1 hd
    exact hbare _
  | subtree f =>
    have hvalid : f.validate s = .ok () := by
      obtain ⟨found, hfound, hresolve⟩ := exists_ok_of_bind hresolve
      cases hfound
      obtain ⟨u, hchecked, -⟩ := exists_ok_of_bind hresolve
      change (f.validate s).mapError _ = _ at hchecked
      cases hcheck : f.validate s with
      | ok u => rfl
      | error e =>
        rw [hcheck] at hchecked
        cases hchecked
    intro d hd
    rcases List.mem_cons.1 hd with rfl | hd
    · exact hbare _
    · exact FilterNode.known_of_standAmong (FilterNode.homes_notifications h) _ f.roots
        ((SubtreeFilter.checkRoots_eq_ok_iff s f.roots).1 hvalid).1 d hd

theorem Schema.isSome_xmlnsOf?_wellKnown (s : Schema) {module xmlns : String} (h : (module, xmlns) ∈ wellKnown) :
    (s.xmlnsOf? module).isSome = true := by
  have hfound : (wellKnown.find? (·.1 = module)).isSome = true := List.find?_isSome.2 ⟨_, h, by simp⟩
  simp [xmlnsOf?, hfound]

theorem Terms.known_children (h : s.Namespaced) {t : Terms} {r : ResolvedFilter}
    (hresolve : streams.resolve s t.filter = .ok r) (module : Option String) :
    ∀ d ∈ Node.listNodes module t.children, d.2.name.Known s := by
  have hbare : ∀ name, (NodeName.bare name).Known s := fun _ => nofun
  intro d hd
  obtain ⟨c, hc, hd⟩ := Node.mem_listNodes.1 hd
  simp only [children, List.mem_append, List.mem_cons, List.not_mem_nil, or_false, Option.mem_toList,
    Option.map_eq_some_iff] at hc
  -- all but the filter are leaves of the protocol's module
  have hleaf : ∀ name v, d ∈ (Node.leaf (.bare name) v).nodes module → d.2.name.Known s := by
    intro name v hd
    obtain rfl := List.mem_singleton.1 hd
    exact hbare _
  rcases hc with ((((rfl | rfl) | ⟨f, hf, rfl⟩) | ⟨u, -, rfl⟩) | ⟨u, -, rfl⟩) | rfl
  · exact hleaf _ _ hd
  · exact hleaf _ _ hd
  · exact f.known_toNode h (hf ▸ hresolve) module d hd
  · exact hleaf _ _ hd
  · exact hleaf _ _ hd
  · exact hleaf _ _ hd

/-- The changes that tell the terms of a subscription. -/
def Terms.changes (t : Terms) : List StateChange := [.started t, .modified t]

/-- Every module named in a notification of the terms has a namespace. -/
theorem Terms.known_change (h : s.Namespaced) {t : Terms} {r : ResolvedFilter}
    (hresolve : streams.resolve s t.filter = .ok r) {change : StateChange} (hchange : change ∈ t.changes) :
    ∀ d ∈ change.toNode.nodes none, d.2.name.Known s := by
  have hchildren : change.children = t.children := by
    rcases List.mem_cons.1 hchange with rfl | hchange
    · rfl
    · obtain rfl := List.mem_singleton.1 hchange
      rfl
  intro d hd
  rw [StateChange.toNode, hchildren, Node.nodes] at hd
  rcases List.mem_cons.1 hd with rfl | hd
  · intro m hm
    obtain rfl := Option.some.inj hm
    exact s.isSome_xmlnsOf?_wellKnown List.mem_cons_self
  · exact known_children h hresolve _ d hd

/-- Where the schema gives a namespace to each module that it names, the start and the modification of a subscription
whose filter it accepts are encoded in XML at any time, and so they reach the listener of the subscription as far as the
listener takes messages. -/
theorem terms_told (h : s.Namespaced) {t : Terms} {r : ResolvedFilter} (hresolve : streams.resolve s t.filter = .ok r)
    {change : StateChange} (hchange : change ∈ t.changes) :
    (∀ time, ∃ text, Notification.xmlEnvelope s time change.toNode = .ok text) ∧
      ∀ (service : Service) (encoding : Encoding), service.schema = s →
        service.dispatcher.attached.contains t.id = true →
        ∃ m, Message.encode t.id encoding service.now change.toNode s = .ok m ∧
          service.deliver change encoding = service.give t.id m := by
  have hencoded : ∀ time, ∃ text, Notification.xmlEnvelope s time change.toNode = .ok text := by
    intro time
    obtain ⟨cs, hcs⟩ := Node.exists_xmlChars none (some notificationXmlns) change.toNode
      (t.known_change h hresolve hchange)
    exact ⟨_, by rw [Notification.xmlEnvelope, hcs]; rfl⟩
  refine ⟨hencoded, ?_⟩
  rintro service encoding rfl hattached
  have hid : change.id = t.id ∧ change.isTerminal = false := by
    rcases List.mem_cons.1 hchange with rfl | hchange
    · exact ⟨rfl, rfl⟩
    · obtain rfl := List.mem_singleton.1 hchange
      exact ⟨rfl, rfl⟩
  have hmessage : ∃ m, Message.encode t.id encoding service.now change.toNode service.schema = .ok m := by
    cases encoding with
    | json => exact ⟨_, rfl⟩
    | xml =>
      obtain ⟨text, htext⟩ := hencoded service.now
      exact ⟨⟨t.id, .xml, text⟩, by rw [Message.encode, htext]; rfl⟩
  obtain ⟨m, hm⟩ := hmessage
  refine ⟨m, hm, ?_⟩
  rw [Service.deliver, hid.1, if_pos hattached, hm]
  simp only [hid.2]
  rfl

end

/-- A notification with a leaf that another module adds to it. -/
def augmented : Schema :=
  ⟨[⟨"m", "urn:m", none⟩, ⟨"n", "urn:n", none⟩],
    [.mk (some "m") "event" .container [] [.mk (some "n") "extra" .leaf [] []]]⟩

/-- The terms of a subscription that asks for one value of that leaf. -/
def augmentedTerms : Terms :=
  ⟨1, netconfStream, some (.subtree ⟨[.containment (.bare "event") [.content (.qualified "n" "extra") "x"]]⟩), none, .xml,
    none⟩

/-- A service with a listener for the subscription. -/
def augmentedService : Service := ((Service.start ⟨0, 0⟩ augmented []).attach 1 4 false).2.2

theorem terms_told_augmented :
    augmented.Namespaced ∧
      augmentedService.streams.resolve augmented augmentedTerms.filter =
        .ok (.subtree ⟨[.containment (.bare "event") [.content (.qualified "n" "extra") "x"]]⟩) ∧
      .modified augmentedTerms ∈ augmentedTerms.changes ∧
      augmentedService.schema = augmented ∧ augmentedService.dispatcher.attached.contains augmentedTerms.id = true ∧
      (∃ text, Notification.xmlEnvelope augmented ⟨0, 0⟩ (StateChange.modified augmentedTerms).toNode = .ok text) ∧
      ∃ m, Message.encode 1 .xml augmentedService.now (StateChange.modified augmentedTerms).toNode augmented = .ok m ∧
        augmentedService.deliver (.modified augmentedTerms) .xml = augmentedService.give 1 m := by
  have hextra : SchemaNode.Namespaced augmented (.mk (some "n") "extra" .leaf [] []) :=
    ⟨by simp [SchemaNode.module, augmented, Schema.xmlnsOf?, Schema.module?], nofun⟩
  have hnamespaced : augmented.Namespaced := by
    intro n hn
    obtain rfl := List.mem_singleton.1 hn
    refine ⟨rfl, ⟨by simp [SchemaNode.module, augmented, Schema.xmlnsOf?, Schema.module?], fun c hc => ?_⟩⟩
    obtain rfl := List.mem_singleton.1 hc
    exact hextra
  have hresolve : augmentedService.streams.resolve augmented augmentedTerms.filter =
      .ok (.subtree ⟨[.containment (.bare "event") [.content (.qualified "n" "extra") "x"]]⟩) := rfl
  have hchange : StateChange.modified augmentedTerms ∈ augmentedTerms.changes := by simp [Terms.changes]
  have htold := terms_told hnamespaced hresolve hchange
  exact ⟨hnamespaced, hresolve, hchange, rfl, rfl, htold.1 ⟨0, 0⟩, htold.2 augmentedService .xml rfl rfl⟩

end YangSubscriptions
