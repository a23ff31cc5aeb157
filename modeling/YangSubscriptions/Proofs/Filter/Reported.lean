import YangSubscriptions.Notification.StateChange
import YangSubscriptions.Proofs.Data.Json
import YangSubscriptions.Proofs.Filter.Json
import YangSubscriptions.Proofs.Filter.Subtree

/-!
# Filters as they are reported

A notification of a started or modified subscription carries its subtree filter as data. Of what is written there the
filter is read back but for modules that are in force where they stand: a member leaves them out, and a name without a
module stands for that name in any module (`reported`). So the reported filter is satisfied by all that satisfies the
filter and keeps no less of it, and it is the filter itself where no name repeats the module in force
(`reported_filter`).
-/

namespace YangSubscriptions

namespace NodeName

/-- The name as it is written below that module, which is left out. -/
def unprefixed (n : NodeName) (module : Option String) : NodeName := if n.module = module then bare n.name else n

theorem unprefixed_of_ne {n : NodeName} {module : Option String} (h : n.module ≠ module) : n.unprefixed module = n :=
  if_neg h

theorem unprefixed_matches {n m : NodeName} {module : Option String} (h : n.Matches m = true) :
    (n.unprefixed module).Matches m = true := by
  unfold unprefixed
  split
  · simp only [Matches, bare, Bool.and_eq_true] at h ⊢
    exact ⟨h.1, trivial⟩
  · exact h

/-- A member is read as the name without the module in force. -/
theorem ofMember_member {n : NodeName} {module : Option String} (h : n.Readable)
    (hplain : n.module = module → ':' ∉ n.name.toList) : ofMember (n.member module) = .ok (n.unprefixed module) := by
  obtain ⟨own, name⟩ := n
  cases own with
  | none =>
    have hbare : unprefixed ⟨none, name⟩ module = bare name := by unfold unprefixed; split <;> rfl
    rw [hbare]
    exact ofMember_bare h.1 h.2
  | some m =>
    have hmember : member ⟨some m, name⟩ module = if some m = module then name else m ++ ":" ++ name := rfl
    by_cases hm : some m = module
    · rw [hmember, if_pos hm, unprefixed, if_pos hm]
      exact ofMember_bare h.1 (hplain hm)
    · rw [hmember, if_neg hm, unprefixed_of_ne hm]
      exact ofMember_qualified h.2.1 h.2.2 h.1

end NodeName

namespace FilterNode

theorem listToNodes_eq_map (fs : List FilterNode) : listToNodes fs = fs.map toNode := by
  induction fs with
  | nil => rfl
  | cons f fs ih => rw [listToNodes, ih]; rfl

@[simp] theorem name_toNode (f : FilterNode) : f.toNode.name = f.name := by cases f <;> rfl

/-! ## Names of a filter that was read -/

theorem exists_of_ofItems {name : NodeName} {v : Json} {vs : List Json} {fs : List FilterNode}
    (h : ofItems name (v :: vs) = .ok fs) :
    ∃ as bs, ofJson name v = .ok as ∧ ofItems name vs = .ok bs ∧ fs = as ++ bs := by
  cases v with
  | array items => cases h
  | _ =>
    obtain ⟨as, has, h⟩ := exists_ok_of_bind h
    obtain ⟨bs, hbs, h⟩ := exists_ok_of_bind h
    exact ⟨as, bs, has, hbs, (Except.ok.inj h).symm⟩

mutual

theorem readable_ofJson {name : NodeName} (hname : name.Readable) : ∀ (v : Json) (fs : List FilterNode),
    ofJson name v = .ok fs → ∀ f ∈ fs, ∀ module, ∀ d ∈ f.toNode.nodes module, d.2.name.Readable
  | .object members, fs, h => by
    obtain ⟨cs, hcs, heq⟩ := exists_ok_of_bind h
    obtain rfl := Except.ok.inj heq
    have hbelow := readable_ofMembers members cs hcs
    intro f hf module d hd
    obtain rfl := List.mem_singleton.1 hf
    simp only [toNode, Node.nodes, List.mem_cons, Node.mem_listNodes, listToNodes_eq_map, List.mem_map] at hd
    rcases hd with rfl | ⟨_, ⟨c, hc, rfl⟩, hd⟩
    · exact hname
    · exact hbelow c hc _ d hd
  | .array items, fs, h => by
    rw [ofJson] at h
    split at h
    · obtain rfl := Except.ok.inj h
      simpa [selection, toNode, listToNodes, Node.nodes, Node.listNodes, Node.name] using hname
    · exact readable_ofItems hname items fs h
  | .null, fs, h => by
    obtain rfl := Except.ok.inj h
    simpa [ofScalar, selection, toNode, listToNodes, Node.nodes, Node.listNodes, Node.name] using hname
  | .bool b, fs, h => by
    obtain rfl := Except.ok.inj h
    simpa [ofScalar, toNode, Node.nodes, Node.name] using hname
  | .number n, fs, h => by
    obtain rfl := Except.ok.inj h
    simpa [ofScalar, toNode, Node.nodes, Node.name] using hname
  | .string s, fs, h => by
    obtain rfl := Except.ok.inj h
    simpa [ofScalar, toNode, Node.nodes, Node.name] using hname

theorem readable_ofItems {name : NodeName} (hname : name.Readable) : ∀ (vs : List Json) (fs : List FilterNode),
    ofItems name vs = .ok fs → ∀ f ∈ fs, ∀ module, ∀ d ∈ f.toNode.nodes module, d.2.name.Readable
  | [], fs, h => by
    obtain rfl := Except.ok.inj h
    simp
  | v :: vs, fs, h => by
    obtain ⟨as, bs, has, hbs, rfl⟩ := exists_of_ofItems h
    intro f hf
    rcases List.mem_append.1 hf with hf | hf
    · exact readable_ofJson hname v as has f hf
    · exact readable_ofItems hname vs bs hbs f hf

theorem readable_ofMembers : ∀ (ms : List (String × Json)) (fs : List FilterNode), ofMembers ms = .ok fs →
    ∀ f ∈ fs, ∀ module, ∀ d ∈ f.toNode.nodes module, d.2.name.Readable
  | [], fs, h => by
    obtain rfl := Except.ok.inj h
    simp
  | (member, v) :: ms, fs, h => by
    obtain ⟨n, hn, h⟩ := exists_ok_of_bind h
    obtain ⟨as, has, h⟩ := exists_ok_of_bind h
    obtain ⟨bs, hbs, h⟩ := exists_ok_of_bind h
    obtain rfl := Except.ok.inj h
    intro f hf
    rcases List.mem_append.1 hf with hf | hf
    · exact readable_ofJson (NodeName.readable_of_ofMember hn) v as has f hf
    · exact readable_ofMembers ms bs hbs f hf

end

/-! ## Reports that are read back -/

mutual

/-- The filter node as it is read from a report below that module. -/
def reported (module : Option String) : FilterNode → FilterNode
  | content n t => content (n.unprefixed module) t
  | containment n fs => containment (n.unprefixed module) (listReported (n.effectiveModule module) fs)

def listReported (module : Option String) : List FilterNode → List FilterNode
  | [] => []
  | f :: fs => reported module f :: listReported module fs

end

/-- Below a node no two members have one name, and where a member leaves a module out the name has no colon that would
be taken for the end of one. -/
def Separable (d : Option String × Node) : Prop :=
  ∀ cs ∈ d.2.families, (cs.map (·.name.member d.1)).Nodup ∧ ∀ c ∈ cs, c.name.module = d.1 → ':' ∉ c.name.name.toList

instance (d : Option String × Node) : Decidable (Separable d) :=
  inferInstanceAs (Decidable (∀ cs ∈ d.2.families, _ ∧ ∀ c ∈ cs, _ → _))

mutual

/-- Reading the reported value of a node gives the node as it is reported. -/
theorem ofJson_jsonValue (module : Option String) : ∀ f : FilterNode,
    (∀ d ∈ f.toNode.nodes module, d.2.name.Readable ∧ Separable d) →
    ofJson (f.name.unprefixed module) (f.toNode.jsonValue (f.name.effectiveModule module)) = .ok [f.reported module]
  | .content n t, _ => rfl
  | .containment n fs, h => by
    obtain ⟨hnames, hplain⟩ := (h _ (Node.self_mem_nodes module _)).2 (listToNodes fs) (by simp [toNode, Node.families])
    have hbelow := ofMembers_jsonMembers (n.effectiveModule module) fs
      (fun d hd => h d (by simp [toNode, Node.nodes, hd])) hplain
    simp only [toNode, Node.jsonValue, name]
    rw [Json.ofMembers_of_nodup (by rw [Node.names_jsonMembers]; exact hnames), ofJson, reported]
    exact ok_of_bind hbelow rfl

theorem ofMembers_jsonMembers (module : Option String) : ∀ fs : List FilterNode,
    (∀ d ∈ Node.listNodes module (listToNodes fs), d.2.name.Readable ∧ Separable d) →
    (∀ c ∈ listToNodes fs, c.name.module = module → ':' ∉ c.name.name.toList) →
    ofMembers (Node.jsonMembers module (listToNodes fs)) = .ok (listReported module fs)
  | [], _, _ => rfl
  | f :: fs, h, hplain => by
    simp only [listToNodes, Node.listNodes, List.mem_append] at h
    simp only [listToNodes, List.forall_mem_cons, name_toNode] at hplain
    have hname := NodeName.ofMember_member (name_toNode f ▸ (h _ (.inl (Node.self_mem_nodes module _))).1) hplain.1
    have hfirst := ofJson_jsonValue module f fun d hd => h d (.inl hd)
    have hrest := ofMembers_jsonMembers module fs (fun d hd => h d (.inr hd)) hplain.2
    rw [listToNodes, Node.jsonMembers, name_toNode, ofMembers, listReported]
    exact ok_of_bind hname (ok_of_bind hfirst (ok_of_bind hrest rfl))

end

/-! ## What a report is satisfied by -/

theorem listReported_eq_map (module : Option String) (fs : List FilterNode) :
    listReported module fs = fs.map (reported module) := by
  induction fs with
  | nil => rfl
  | cons f fs ih => rw [listReported, ih]; rfl

theorem isEmpty_listReported (module : Option String) (fs : List FilterNode) :
    (listReported module fs).isEmpty = fs.isEmpty := by
  cases fs <;> rfl

theorem all_isContent_listReported (module : Option String) (fs : List FilterNode) :
    (listReported module fs).all isContent = fs.all isContent := by
  have h : ∀ f : FilterNode, (f.reported module).isContent = f.isContent := by intro f; cases f <;> rfl
  rw [listReported_eq_map, List.all_map]
  simp [Function.comp_def, h]

mutual

/-- A reported node asks for no more than the node it reports. -/
theorem isSatisfied_reported (module : Option String) : ∀ (f : FilterNode) (node : Node),
    f.isSatisfied node = true → (f.reported module).isSatisfied node = true
  | .content n t, node, h => by
    simp only [reported, isSatisfied, Bool.and_eq_true] at h ⊢
    exact ⟨NodeName.unprefixed_matches h.1, h.2⟩
  | .containment n fs, node, h => by
    simp only [reported, isSatisfied, Bool.and_eq_true, Bool.or_eq_true, isEmpty_listReported] at h ⊢
    refine ⟨NodeName.unprefixed_matches h.1, h.2.imp_right fun hbelow => ?_⟩
    cases node with
    | container m cs => exact areSatisfied_reported _ fs cs hbelow
    | list m es =>
      obtain ⟨e, he, hsat⟩ := List.any_eq_true.1 hbelow
      exact List.any_eq_true.2 ⟨e, he, areSatisfied_reported _ fs e hsat⟩
    | leaf m v => cases hbelow
    | leafList m vs => cases hbelow

theorem areSatisfied_reported (module : Option String) : ∀ (fs : List FilterNode) (cs : List Node),
    areSatisfied fs cs = true → areSatisfied (listReported module fs) cs = true
  | [], _, _ => rfl
  | f :: fs, cs, h => by
    simp only [listReported, areSatisfied, Bool.and_eq_true] at h ⊢
    obtain ⟨c, hc, hsat⟩ := List.any_eq_true.1 h.1
    exact ⟨List.any_eq_true.2 ⟨c, hc, isSatisfied_reported module f c hsat⟩, areSatisfied_reported module fs cs h.2⟩

end

mutual

/-- A reported node keeps all that the node it reports keeps. -/
theorem keeps_reported (module : Option String) : ∀ (f : FilterNode) (node : Node) (p : NodePath),
    f.keeps node p = true → (f.reported module).keeps node p = true
  | .content n t, node, p, h => by
    cases node <;> cases p <;> exact h
  | .containment n fs, node, p, h => by
    match node, p with
    | _, [] => simp [keeps]
    | .container m cs, i :: p =>
      simp only [reported, keeps, Bool.or_eq_true, all_isContent_listReported] at h ⊢
      exact h.imp_right (keepsAny_reported _ fs cs i p)
    | .list m es, [i] =>
      simp only [reported, keeps, Bool.or_eq_true, Option.any_eq_true, isEmpty_listReported] at h ⊢
      refine h.imp_right fun ⟨e, he, hsat⟩ => ⟨e, he, areSatisfied_reported _ fs e hsat⟩
    | .list m es, i :: j :: p =>
      simp only [reported, keeps, Bool.or_eq_true, Bool.and_eq_true, Option.any_eq_true, isEmpty_listReported,
        all_isContent_listReported] at h ⊢
      refine h.imp_right fun ⟨e, he, hsat, hkeep⟩ => ⟨e, he, areSatisfied_reported _ fs e hsat, ?_⟩
      exact hkeep.imp_right (keepsAny_reported _ fs e j p)
    | .leaf _ _, _ :: _ => simp [reported, keeps]
    | .leafList _ _, _ :: _ => simp [reported, keeps]

theorem keepsAny_reported (module : Option String) : ∀ (fs : List FilterNode) (cs : List Node) (i : Nat) (p : NodePath),
    keepsAny fs cs i p = true → keepsAny (listReported module fs) cs i p = true
  | [], _, _, _, h => h
  | f :: fs, cs, i, p, h => by
    simp only [listReported, keepsAny, Bool.or_eq_true, Option.any_eq_true, Bool.and_eq_true] at h ⊢
    rcases h with ⟨c, hc, hsat, hkeep⟩ | h
    · exact .inl ⟨c, hc, isSatisfied_reported module f c hsat, keeps_reported module f c p hkeep⟩
    · exact .inr (keepsAny_reported module fs cs i p h)

end

/-! ## Reports that repeat no module -/

/-- No child names the module in force. -/
def Unrepeated (d : Option String × Node) : Prop := ∀ cs ∈ d.2.families, ∀ c ∈ cs, c.name.module ≠ d.1

instance (d : Option String × Node) : Decidable (Unrepeated d) :=
  inferInstanceAs (Decidable (∀ cs ∈ d.2.families, ∀ c ∈ cs, _))

mutual

/-- A node is reported unchanged when its module is not the one around it and no module is repeated below. -/
theorem reported_eq_self (module : Option String) : ∀ f : FilterNode, f.name.module ≠ module →
    (∀ d ∈ f.toNode.nodes module, Unrepeated d) → f.reported module = f
  | .content n t, hname, _ => by rw [reported, NodeName.unprefixed_of_ne (n := n) hname]
  | .containment n fs, hname, h => by
    have hchildren := h _ (Node.self_mem_nodes module _) (listToNodes fs) (by simp [toNode, Node.families])
    rw [reported, NodeName.unprefixed_of_ne (n := n) hname,
      listReported_eq_self (n.effectiveModule module) fs hchildren]
    exact fun d hd => h d (by simp [toNode, Node.nodes, hd])

theorem listReported_eq_self (module : Option String) : ∀ fs : List FilterNode,
    (∀ c ∈ listToNodes fs, c.name.module ≠ module) → (∀ d ∈ Node.listNodes module (listToNodes fs), Unrepeated d) →
    listReported module fs = fs
  | [], _, _ => rfl
  | f :: fs, hnames, h => by
    simp only [listToNodes, Node.listNodes, List.mem_append, List.forall_mem_cons, name_toNode] at h hnames
    rw [listReported, reported_eq_self module f hnames.1 fun d hd => h d (.inl hd),
      listReported_eq_self module fs hnames.2 fun d hd => h d (.inr hd)]

end

end FilterNode

/-! ## Notifications -/

/-- The subtree filter in the notification of a state change. -/
def StateChange.filterMember? (c : StateChange) (notification : Json) : Option Json := do
  let content ← notification.member? (restconfModule ++ ":notification")
  let body ← content.member? (identityOf c.name)
  body.member? "stream-subtree-filter"

theorem StateChange.filterMember?_envelope {c : StateChange} {t : Terms} {f : SubtreeFilter}
    (hc : c = .started t ∨ c = .modified t) (hfilter : t.filter = some (.subtree f)) (time : Instant) :
    c.filterMember? (Notification.envelope time c.toNode) =
      some ((StreamFilter.subtree f).toNode.jsonValue (some subscribedNotifications)) := by
  have hroot : c.toNode.name.module.isSome := rfl
  have hchildren : c.children = t.children := by rcases hc with rfl | rfl <;> rfl
  have hbody : c.toNode.jsonMember =
      (identityOf c.name, Json.ofMembers (Node.jsonMembers (some subscribedNotifications) t.children)) := by
    rw [← hchildren]
    rfl
  have hne := Notification.member_ne hroot
  have hnames : ((Node.jsonMembers (some subscribedNotifications) t.children).map (·.1)).Nodup := by
    rw [Node.names_jsonMembers, Terms.children, hfilter]
    cases t.replayStartTime <;> cases t.stopTime <;>
      simp [Node.text, Node.int, StreamFilter.toNode, Node.name, NodeName.member, NodeName.bare]
  have hmember : ("stream-subtree-filter", (StreamFilter.subtree f).toNode.jsonValue (some subscribedNotifications)) ∈
      Node.jsonMembers (some subscribedNotifications) t.children := by
    rw [Node.jsonMembers_eq_map, List.mem_map]
    exact ⟨(StreamFilter.subtree f).toNode, by simp [Terms.children, hfilter], rfl⟩
  rw [hbody] at hne
  rw [filterMember?, Notification.envelope_eq hroot, hbody, Json.ofMembers_of_nodup hnames,
    Json.member?_object (by simp) List.mem_cons_self]
  simp only [Option.bind_eq_bind, Option.bind_some]
  rw [Json.member?_object (by simpa using hne.symm) (List.mem_cons_of_mem _ List.mem_cons_self)]
  exact Json.member?_object hnames hmember

namespace SubtreeFilter

/-- The filter as it is read from a notification of the protocol. -/
def reported (f : SubtreeFilter) : SubtreeFilter := ⟨FilterNode.listReported (some subscribedNotifications) f.roots⟩

theorem readable_ofJson {v : Json} {f : SubtreeFilter} (h : ofJson v = .ok f) (module : Option String) :
    ∀ d ∈ Node.listNodes module (FilterNode.listToNodes f.roots), d.2.name.Readable := by
  have hroots : ∀ r ∈ f.roots, ∀ d ∈ r.toNode.nodes module, d.2.name.Readable := by
    intro r hr
    cases v with
    | object members =>
      obtain ⟨fs, hfs, rfl⟩ := exists_ok_of_map h
      exact FilterNode.readable_ofMembers members fs hfs r hr module
    | null =>
      obtain rfl := Except.ok.inj h
      cases hr
    | _ => cases h
  intro d hd
  simp only [Node.mem_listNodes, FilterNode.listToNodes_eq_map, List.mem_map] at hd
  obtain ⟨_, ⟨r, hr, rfl⟩, hd⟩ := hd
  exact hroots r hr d hd

theorem accepts_reported {f : SubtreeFilter} {body : Node} (h : f.accepts body = true) :
    f.reported.accepts body = true := by
  rw [accepts_eq, Bool.or_eq_true] at h ⊢
  rw [reported, FilterNode.isEmpty_listReported, FilterNode.listReported_eq_map]
  refine h.imp_right fun hany => ?_
  obtain ⟨r, hr, hsat⟩ := List.any_eq_true.1 hany
  exact List.any_eq_true.2 ⟨_, List.mem_map_of_mem hr, FilterNode.isSatisfied_reported _ r body hsat⟩

theorem keeps_reported {f : SubtreeFilter} {body : Node} {p : NodePath} (h : f.keeps body p = true) :
    f.reported.keeps body p = true := by
  rw [keeps, Bool.or_eq_true] at h ⊢
  rw [reported, FilterNode.isEmpty_listReported, FilterNode.listReported_eq_map]
  refine h.imp_right fun hany => ?_
  obtain ⟨r, hr, hkeep⟩ := List.any_eq_true.1 hany
  rw [Bool.and_eq_true] at hkeep
  refine List.any_eq_true.2 ⟨_, List.mem_map_of_mem hr, ?_⟩
  rw [FilterNode.isSatisfied_reported _ r body hkeep.1, FilterNode.keeps_reported _ r body p hkeep.2]
  rfl

/-- In the notification that its subscription was started or modified the filter is read as that one. -/
def ReportedAs (f g : SubtreeFilter) : Prop :=
  ∀ (t : Terms) (c : StateChange) (time : Instant), t.filter = some (.subtree f) → c = .started t ∨ c = .modified t →
    ∃ w, c.filterMember? (Notification.envelope time c.toNode) = some w ∧ ofJson w = .ok g

theorem reportedAs_of_ofJson {f g : SubtreeFilter}
    (h : ofJson ((StreamFilter.subtree f).toNode.jsonValue (some subscribedNotifications)) = .ok g) : f.ReportedAs g :=
  fun _ _ time hfilter hc => ⟨_, StateChange.filterMember?_envelope hc hfilter time, h⟩

/-- Of the notification that its subscription was started or modified a filter is read back, but for the modules that
are in force where they stand. So the reported filter accepts what the filter accepts and keeps no less of it, and where
the filter repeats no module it is the filter itself. -/
theorem reported_filter (v : Json) (f : SubtreeFilter) (hread : ofJson v = .ok f)
    (hseparable : ∀ d ∈ (StreamFilter.subtree f).toNode.nodes (some subscribedNotifications), FilterNode.Separable d) :
    f.ReportedAs f.reported ∧
      (∀ body, f.accepts body = true → f.reported.accepts body = true) ∧
      (∀ body p, f.keeps body p = true → f.reported.keeps body p = true) ∧
      ((∀ d ∈ (StreamFilter.subtree f).toNode.nodes (some subscribedNotifications), FilterNode.Unrepeated d) →
        f.reported = f) := by
  have hnodes : (StreamFilter.subtree f).toNode.nodes (some subscribedNotifications) =
      (some subscribedNotifications, (StreamFilter.subtree f).toNode) ::
        Node.listNodes (some subscribedNotifications) (FilterNode.listToNodes f.roots) := rfl
  have hreadable := readable_ofJson hread (some subscribedNotifications)
  rw [hnodes, List.forall_mem_cons] at hseparable ⊢
  obtain ⟨hnames, hplain⟩ := hseparable.1 (FilterNode.listToNodes f.roots) (by simp [StreamFilter.toNode, Node.families])
  refine ⟨reportedAs_of_ofJson ?_, fun _ => accepts_reported, fun _ _ => keeps_reported, ?_⟩
  · have hroots := FilterNode.ofMembers_jsonMembers (some subscribedNotifications) f.roots
      (fun d hd => ⟨hreadable d hd, hseparable.2 d hd⟩) hplain
    rw [StreamFilter.toNode, Node.jsonValue,
      Json.ofMembers_of_nodup (by rw [Node.names_jsonMembers]; exact hnames), ofJson, hroots]
    rfl
  · rintro ⟨hown, hbelow⟩
    have hchildren := hown (FilterNode.listToNodes f.roots) (by simp [StreamFilter.toNode, Node.families])
    rw [reported, FilterNode.listReported_eq_self _ f.roots hchildren hbelow]

/-- A filter with alternatives, nested names of their parent's module and of another one, and all kinds of nodes. -/
theorem reported_filter_nested :
    ReportedAs
      ⟨[.containment ⟨some "m", "a"⟩ [.containment ⟨none, "b"⟩ [.content ⟨none, "k"⟩ "1", .containment ⟨some "n", "k"⟩ []],
        .content ⟨some "n", "c"⟩ "true"], .content ⟨none, "a"⟩ "x"]⟩
      ⟨[.containment ⟨some "m", "a"⟩ [.containment ⟨none, "b"⟩ [.content ⟨none, "k"⟩ "1", .containment ⟨some "n", "k"⟩ []],
        .content ⟨some "n", "c"⟩ "true"], .content ⟨none, "a"⟩ "x"]⟩ := by
  obtain ⟨hreported, -, -, hself⟩ := reported_filter
    (.object [("m:a", .object [("b", .array [.object [("k", .number (.int 1)), ("n:k", .null)]]), ("n:c", .bool true)]),
      ("a", .string "x")]) _ rfl (by decide)
  exact hself (by decide) ▸ hreported

/-- A module that is repeated is not read back, and then the name is taken in any module. And without its module a name
that has a colon is read as another one. -/
theorem reported_filter_differs :
    (ofJson (.object [("m:a", .object [("m:b", .string "x")])]) =
        .ok ⟨[.containment ⟨some "m", "a"⟩ [.content ⟨some "m", "b"⟩ "x"]]⟩ ∧
      ReportedAs ⟨[.containment ⟨some "m", "a"⟩ [.content ⟨some "m", "b"⟩ "x"]]⟩
        ⟨[.containment ⟨some "m", "a"⟩ [.content ⟨none, "b"⟩ "x"]]⟩ ∧
      accepts ⟨[.containment ⟨some "m", "a"⟩ [.content ⟨some "m", "b"⟩ "x"]]⟩
        (.container ⟨some "m", "a"⟩ [.leaf ⟨some "n", "b"⟩ (.string "x")]) = false ∧
      accepts ⟨[.containment ⟨some "m", "a"⟩ [.content ⟨none, "b"⟩ "x"]]⟩
        (.container ⟨some "m", "a"⟩ [.leaf ⟨some "n", "b"⟩ (.string "x")]) = true) ∧
    ofJson (.object [("m:a", .object [("m:b:c", .string "x")])]) =
        .ok ⟨[.containment ⟨some "m", "a"⟩ [.content ⟨some "m", "b:c"⟩ "x"]]⟩ ∧
      ReportedAs ⟨[.containment ⟨some "m", "a"⟩ [.content ⟨some "m", "b:c"⟩ "x"]]⟩
        ⟨[.containment ⟨some "m", "a"⟩ [.content ⟨some "b", "c"⟩ "x"]]⟩ ∧
      accepts ⟨[.containment ⟨some "m", "a"⟩ [.content ⟨some "m", "b:c"⟩ "x"]]⟩
        (.container ⟨some "m", "a"⟩ [.leaf ⟨none, "b:c"⟩ (.string "x")]) = true ∧
      accepts ⟨[.containment ⟨some "m", "a"⟩ [.content ⟨some "b", "c"⟩ "x"]]⟩
        (.container ⟨some "m", "a"⟩ [.leaf ⟨none, "b:c"⟩ (.string "x")]) = false := by
  simp only [accepts_eq]
  exact ⟨⟨rfl, reportedAs_of_ofJson rfl, rfl, rfl⟩, rfl, reportedAs_of_ofJson rfl, rfl, rfl⟩

end SubtreeFilter

end YangSubscriptions
