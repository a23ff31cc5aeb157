import YangSubscriptions.Notification.Event
import YangSubscriptions.Proofs.Data.Modules
import YangSubscriptions.Proofs.Text.Blank

/-!
# JSON encoding loses nothing

A member is named by its module only where that differs from the module of the parent, and an object keeps one member
of a name. Below one parent the member name still tells a node's module and local name (`resolve_of_member`), so
siblings that differ in these become members of different names and none is overwritten (`ofMembers_jsonMembers`). The
values then follow in a simultaneous induction on two trees: equal values come from trees that are equal with their
modules made explicit (`explicit_of_jsonValue`), and an envelope tells its time and its body (`envelope_eq_iff`).
-/

namespace YangSubscriptions

/-! ## Objects -/

/-- Of things with different names the one of a name is found. -/
theorem find?_of_nodup {α : Type} {name : α → String} {xs : List α} (hnodup : (xs.map name).Nodup) {x : α} (h : x ∈ xs) :
    xs.find? (fun y => name y = name x) = some x := by
  induction xs with
  | nil => cases h
  | cons y xs ih =>
    rw [List.map_cons, List.nodup_cons] at hnodup
    rcases List.mem_cons.1 h with rfl | h
    · simp
    · have hne : name y ≠ name x := fun he => hnodup.1 (he ▸ List.mem_map_of_mem h)
      rw [List.find?_cons_of_neg (by simpa using hne), ih hnodup.2 h]

namespace Json

theorem insertMember_of_notMem {name : String} {v : Json} {ms : List (String × Json)} (h : name ∉ ms.map (·.1)) :
    insertMember name v ms = ms ++ [(name, v)] := by
  induction ms with
  | nil => rfl
  | cons m ms ih =>
    rw [List.map_cons, List.mem_cons, not_or] at h
    rw [insertMember, if_neg (Ne.symm h.1), ih h.2]
    rfl

/-- Of members with different names none is overwritten. -/
theorem ofMembers_of_nodup {ms : List (String × Json)} (h : (ms.map (·.1)).Nodup) : ofMembers ms = .object ms := by
  have hfold : ∀ acc : List (String × Json), ((acc ++ ms).map (·.1)).Nodup →
      ms.foldl (fun acc m => insertMember m.1 m.2 acc) acc = acc ++ ms := by
    clear h
    induction ms with
    | nil => simp
    | cons m ms ih =>
      intro acc h
      have hnew : m.1 ∉ acc.map (·.1) := by
        intro hm
        rw [List.map_append, List.nodup_append] at h
        exact h.2.2 _ hm _ (by simp) rfl
      rw [List.foldl_cons, insertMember_of_notMem hnew, ih, List.append_assoc]
      · rfl
      · simpa using h
  exact congrArg object (hfold [] (by simpa using h))

theorem member?_object {name : String} {v : Json} {ms : List (String × Json)} (hnodup : (ms.map (·.1)).Nodup)
    (h : (name, v) ∈ ms) : member? name (.object ms) = some v := by
  rw [member?, find?_of_nodup hnodup h, Option.map_some]

theorem member?_object_eq_none {name : String} {ms : List (String × Json)} (h : name ∉ ms.map (·.1)) :
    member? name (.object ms) = none := by
  rw [member?, Option.map_eq_none_iff, List.find?_eq_none]
  intro m hm heq
  exact h (List.mem_map.2 ⟨m, hm, by simpa using heq⟩)

end Json

/-! ## Member names -/

/-- A text without the character that ends a prefix. -/
def ColonFree (s : String) : Prop := ':' ∉ s.toList

instance (s : String) : Decidable (ColonFree s) := inferInstanceAs (Decidable (_ ∉ _))

namespace NodeName

@[simp] theorem member_resolve (n : NodeName) (parent : Option String) :
    (n.resolve parent).member parent = n.member parent := by
  cases h : n.module <;> cases parent <;> simp [resolve, effectiveModule, member, h]

/-- The prefix stands where the module is not that of the parent. -/
theorem member_cases (n : NodeName) (parent : Option String) :
    (n.effectiveModule parent = parent ∧ n.member parent = n.name) ∨
      ∃ m, n.effectiveModule parent = some m ∧ some m ≠ parent ∧
        (n.member parent).toList = m.toList ++ ':' :: n.name.toList := by
  cases h : n.module with
  | none => left; simp [effectiveModule, member, h]
  | some m =>
    by_cases hp : some m = parent
    · left; simp [effectiveModule, member, h, ← hp]
    · right; exact ⟨m, by simp [effectiveModule, h], hp, by simp [member, h, hp]⟩

/-- No colon stands in the name or in the name of its module. -/
def Legible (n : NodeName) (parent : Option String) : Prop :=
  ':' ∉ n.name.toList ∧ ∀ m ∈ n.effectiveModule parent, ':' ∉ m.toList

/-- A member tells the module and the name it was made from. -/
theorem resolve_of_member {n n' : NodeName} {parent : Option String} (h : n.Legible parent) (h' : n'.Legible parent)
    (heq : n.member parent = n'.member parent) : n.resolve parent = n'.resolve parent := by
  unfold resolve
  rcases member_cases n parent with ⟨hm, hn⟩ | ⟨m, hm, hne, hn⟩ <;>
    rcases member_cases n' parent with ⟨hm', hn'⟩ | ⟨m', hm', hne', hn'⟩
  · rw [hm, hm', ← hn, ← hn', heq]
  · rw [← heq, hn] at hn'
    exact absurd (by simp [hn']) h.1
  · rw [heq, hn'] at hn
    exact absurd (by simp [hn]) h'.1
  · have hcut := hn.symm.trans ((congrArg String.toList heq).trans hn')
    have := Text.cutChars_append (h.2 m hm) n.name.toList
    rw [hcut, Text.cutChars_append (h'.2 m' hm')] at this
    simp only [Option.some.injEq, Prod.mk.injEq, String.toList_inj] at this
    rw [hm, hm', this.1, this.2]

end NodeName

/-! ## Values -/

namespace LeafValue

theorem toJson_injective {v w : LeafValue} (h : v.toJson = w.toJson) : v = w := by
  cases v <;> cases w <;> simp_all [toJson]

theorem toJson_ne_null (v : LeafValue) : v.toJson ≠ .null := by cases v <;> simp [toJson]

theorem toJson_ne_ofMembers (v : LeafValue) (ms : List (String × Json)) : v.toJson ≠ .ofMembers ms := by
  cases v <;> simp [toJson, Json.ofMembers]

end LeafValue

namespace Node

/-- Entries are objects and values are not, so they have only the empty array in common. -/
theorem jsonEntries_eq_values {module : Option String} {es : List (List Node)} {vs : List LeafValue}
    (h : jsonEntries module es = vs.map LeafValue.toJson) : es = [] ∧ vs = [] := by
  cases es with
  | nil => exact ⟨rfl, List.map_eq_nil_iff.1 h.symm⟩
  | cons e es =>
    cases vs with
    | nil => simp [jsonEntries] at h
    | cons v vs => exact absurd (List.cons.inj h).1.symm (v.toJson_ne_ofMembers _)

/-- The empty type is an array as lists are, but of a null, which stands for no entry and for no value. -/
theorem toJson_ne_array {v : LeafValue} {items : List Json} (h : .null ∉ items) : v.toJson ≠ .array items := by
  cases v <;> simp only [LeafValue.toJson, ne_eq, reduceCtorEq, not_false_eq_true, Json.array.injEq]
  rintro rfl
  simp at h

theorem null_notMem_jsonEntries (module : Option String) (es : List (List Node)) :
    Json.null ∉ jsonEntries module es := by
  induction es with
  | nil => simp [jsonEntries]
  | cons e es ih => simp [jsonEntries, ih, Json.ofMembers]

theorem null_notMem_values (vs : List LeafValue) : Json.null ∉ vs.map LeafValue.toJson := by
  simp [LeafValue.toJson_ne_null]

/-! ## Siblings -/

/-- A node that can be told from its siblings: the name is legible, and no two of its children have their module and
their name in common. -/
def Telling (d : Option String × Node) : Prop :=
  (':' ∉ d.2.name.name.toList ∧ ∀ m ∈ d.1, ':' ∉ m.toList) ∧
    ∀ cs ∈ d.2.families, (cs.map (·.name.resolve d.1)).Nodup

instance (d : Option String × Node) : Decidable (Telling d) := inferInstanceAs (Decidable (_ ∧ _))

theorem legible {parent : Option String} {n : Node} (h : ∀ d ∈ n.nodes parent, Telling d) : n.name.Legible parent :=
  (h _ (self_mem_nodes parent n)).1

theorem jsonMembers_eq_map (module : Option String) (cs : List Node) :
    jsonMembers module cs = cs.map fun c => (c.name.member module, c.jsonValue (c.name.effectiveModule module)) := by
  induction cs with
  | nil => rfl
  | cons c cs ih => rw [jsonMembers, ih]; rfl

theorem names_jsonMembers (module : Option String) (cs : List Node) :
    (jsonMembers module cs).map (·.1) = cs.map (·.name.member module) := by
  rw [jsonMembers_eq_map, List.map_map]
  rfl

/-- Siblings that differ in their module or their name are members of different names. -/
theorem nodup_names {module : Option String} {cs : List Node} (h : ∀ d ∈ listNodes module cs, Telling d)
    (hdistinct : (cs.map (·.name.resolve module)).Nodup) : ((jsonMembers module cs).map (·.1)).Nodup := by
  rw [names_jsonMembers]
  rw [List.Nodup, List.pairwise_map] at hdistinct ⊢
  refine hdistinct.imp_of_mem fun ha hb hne heq => hne ?_
  exact NodeName.resolve_of_member (legible fun d hd => h d (mem_listNodes.2 ⟨_, ha, hd⟩))
    (legible fun d hd => h d (mem_listNodes.2 ⟨_, hb, hd⟩)) heq

theorem ofMembers_jsonMembers {module : Option String} {cs : List Node} (h : ∀ d ∈ listNodes module cs, Telling d)
    (hdistinct : (cs.map (·.name.resolve module)).Nodup) :
    Json.ofMembers (jsonMembers module cs) = .object (jsonMembers module cs) :=
  Json.ofMembers_of_nodup (nodup_names h hdistinct)

/-! ## Trees -/

mutual

theorem explicit_of_jsonValue (parent : Option String) : ∀ n n' : Node,
    (∀ d ∈ n.nodes parent, Telling d) → (∀ d ∈ n'.nodes parent, Telling d) →
    n.name.resolve parent = n'.name.resolve parent →
    n.jsonValue (n.name.effectiveModule parent) = n'.jsonValue (n'.name.effectiveModule parent) →
    n.explicit parent = n'.explicit parent
  | .container n cs, n', h, h', hname, hvalue => by
    have hmodule : n.effectiveModule parent = n'.name.effectiveModule parent := congrArg NodeName.module hname
    have hcs := (h _ (self_mem_nodes parent _)).2 cs (by simp [families])
    have hnodes : ∀ d ∈ listNodes (n.effectiveModule parent) cs, Telling d := fun d hd => h d (by simp [nodes, hd])
    simp only [name, jsonValue] at hname hvalue hcs
    rw [ofMembers_jsonMembers hnodes hcs] at hvalue
    cases n' with
    | container n' cs' =>
      have hcs' := (h' _ (self_mem_nodes parent _)).2 cs' (by simp [families])
      have hnodes' : ∀ d ∈ listNodes (n'.effectiveModule parent) cs', Telling d := fun d hd =>
        h' d (by simp [nodes, hd])
      simp only [name, jsonValue] at hmodule hvalue hcs' hname
      rw [ofMembers_jsonMembers hnodes' hcs', Json.object.injEq, ← hmodule] at hvalue
      rw [← hmodule] at hnodes'
      rw [explicit, explicit, hname, ← hmodule, explicitList_of_jsonMembers _ cs cs' hnodes hnodes' hvalue]
    | list n' es' => simp [jsonValue] at hvalue
    | leaf n' v' => cases v' <;> simp [jsonValue, LeafValue.toJson] at hvalue
    | leafList n' vs' => simp [jsonValue] at hvalue
  | .list n es, n', h, h', hname, hvalue => by
    have hmodule : n.effectiveModule parent = n'.name.effectiveModule parent := congrArg NodeName.module hname
    simp only [name, jsonValue] at hname hvalue
    cases n' with
    | container n' cs' => simp [jsonValue, Json.ofMembers] at hvalue
    | list n' es' =>
      have hes := (h _ (self_mem_nodes parent _)).2
      have hes' := (h' _ (self_mem_nodes parent _)).2
      simp only [name, jsonValue, families, Json.array.injEq] at hmodule hvalue hname hes hes'
      rw [← hmodule] at hvalue hes'
      have hentries := explicitEntries_of_jsonEntries (n.effectiveModule parent) es es'
        (fun d hd => h d (by simp [nodes, hd])) hes (fun d hd => h' d (by simp [nodes, ← hmodule, hd])) hes' hvalue
      cases es <;> cases es' <;> simp_all [explicit, explicitEntries]
    | leaf n' v' =>
      simp only [jsonValue] at hvalue
      exact absurd hvalue.symm (toJson_ne_array (null_notMem_jsonEntries _ es))
    | leafList n' vs' =>
      simp only [jsonValue, Json.array.injEq] at hvalue hname
      obtain ⟨rfl, rfl⟩ := jsonEntries_eq_values hvalue
      rw [explicit, explicit, hname]
  | .leaf n v, n', h, h', hname, hvalue => by
    simp only [name, jsonValue] at hname hvalue
    cases n' with
    | container n' cs' => exact absurd hvalue (v.toJson_ne_ofMembers _)
    | list n' es' => exact absurd hvalue (toJson_ne_array (null_notMem_jsonEntries _ es'))
    | leaf n' v' =>
      simp only [jsonValue] at hname hvalue
      rw [explicit, explicit, hname, LeafValue.toJson_injective hvalue]
    | leafList n' vs' => exact absurd hvalue (toJson_ne_array (null_notMem_values vs'))
  | .leafList n vs, n', h, h', hname, hvalue => by
    simp only [name, jsonValue] at hname hvalue
    cases n' with
    | container n' cs' => simp [jsonValue, Json.ofMembers] at hvalue
    | list n' es' =>
      simp only [jsonValue, Json.array.injEq] at hvalue hname
      obtain ⟨rfl, rfl⟩ := jsonEntries_eq_values hvalue.symm
      rw [explicit, explicit, hname]
    | leaf n' v' =>
      simp only [jsonValue] at hvalue
      exact absurd hvalue.symm (toJson_ne_array (null_notMem_values vs))
    | leafList n' vs' =>
      simp only [jsonValue, Json.array.injEq] at hname hvalue
      rw [explicit, explicit, hname, List.map_inj_right (fun _ _ => LeafValue.toJson_injective) |>.1 hvalue]

theorem explicitList_of_jsonMembers (module : Option String) : ∀ cs cs' : List Node,
    (∀ d ∈ listNodes module cs, Telling d) → (∀ d ∈ listNodes module cs', Telling d) →
    jsonMembers module cs = jsonMembers module cs' → explicitList module cs = explicitList module cs'
  | [], [], _, _, _ => rfl
  | [], _ :: _, _, _, heq => by simp [jsonMembers] at heq
  | _ :: _, [], _, _, heq => by simp [jsonMembers] at heq
  | c :: cs, c' :: cs', h, h', heq => by
    simp only [listNodes, List.mem_append] at h h'
    simp only [jsonMembers, List.cons.injEq, Prod.mk.injEq] at heq
    obtain ⟨⟨hmember, hvalue⟩, hrest⟩ := heq
    have hc : ∀ d ∈ c.nodes module, Telling d := fun d hd => h d (.inl hd)
    have hc' : ∀ d ∈ c'.nodes module, Telling d := fun d hd => h' d (.inl hd)
    have hname := NodeName.resolve_of_member (legible hc) (legible hc') hmember
    rw [explicitList, explicitList, explicit_of_jsonValue module c c' hc hc' hname hvalue,
      explicitList_of_jsonMembers module cs cs' (fun d hd => h d (.inr hd)) (fun d hd => h' d (.inr hd)) hrest]

theorem explicitEntries_of_jsonEntries (module : Option String) : ∀ es es' : List (List Node),
    (∀ d ∈ entryNodes module es, Telling d) → (∀ e ∈ es, (e.map (·.name.resolve module)).Nodup) →
    (∀ d ∈ entryNodes module es', Telling d) → (∀ e ∈ es', (e.map (·.name.resolve module)).Nodup) →
    jsonEntries module es = jsonEntries module es' → explicitEntries module es = explicitEntries module es'
  | [], [], _, _, _, _, _ => rfl
  | [], _ :: _, _, _, _, _, heq => by simp [jsonEntries] at heq
  | _ :: _, [], _, _, _, _, heq => by simp [jsonEntries] at heq
  | e :: es, e' :: es', h, hd, h', hd', heq => by
    simp only [entryNodes, List.mem_append] at h h'
    rw [List.forall_mem_cons] at hd hd'
    have he : ∀ d ∈ listNodes module e, Telling d := fun d hm => h d (.inl hm)
    have he' : ∀ d ∈ listNodes module e', Telling d := fun d hm => h' d (.inl hm)
    simp only [jsonEntries, List.cons.injEq, ofMembers_jsonMembers he hd.1, ofMembers_jsonMembers he' hd'.1,
      Json.object.injEq] at heq
    rw [explicitEntries, explicitEntries, explicitList_of_jsonMembers module e e' he he' heq.1,
      explicitEntries_of_jsonEntries module es es' (fun d hm => h d (.inr hm)) hd.2 (fun d hm => h' d (.inr hm)) hd'.2
        heq.2]

end

/-! ## Repeated modules -/

mutual

theorem jsonValue_explicit (parent : Option String) : ∀ n : Node,
    (n.explicit parent).jsonValue (n.name.effectiveModule parent) = n.jsonValue (n.name.effectiveModule parent)
  | .container n cs => by simp only [explicit, jsonValue, name, jsonMembers_explicitList _ cs]
  | .list n [] => rfl
  | .list n (e :: es) => by simp only [explicit, jsonValue, name, jsonEntries_explicitEntries _ (e :: es)]
  | .leaf n v => rfl
  | .leafList n vs => rfl

theorem jsonMembers_explicitList (module : Option String) : ∀ cs : List Node,
    jsonMembers module (explicitList module cs) = jsonMembers module cs
  | [] => rfl
  | c :: cs => by
    simp only [explicitList, jsonMembers, name_explicit, NodeName.member_resolve, NodeName.effectiveModule_resolve,
      jsonValue_explicit module c, jsonMembers_explicitList module cs]

theorem jsonEntries_explicitEntries (module : Option String) : ∀ es : List (List Node),
    jsonEntries module (explicitEntries module es) = jsonEntries module es
  | [] => rfl
  | e :: es => by
    simp only [explicitEntries, jsonEntries, jsonMembers_explicitList module e, jsonEntries_explicitEntries module es]

end

/-- Whether a node repeats the module of its parent or takes it over makes no difference to its member. -/
theorem jsonMember_explicit (n : Node) : (n.explicit none).jsonMember = n.jsonMember := by
  have hvalue := n.jsonValue_explicit none
  have hmodule : n.name.effectiveModule none = n.name.module := by simp [NodeName.effectiveModule]
  rw [hmodule] at hvalue
  rw [jsonMember, jsonMember, name_explicit, NodeName.member_resolve, ← hvalue]
  simp [NodeName.resolve, hmodule]

end Node

/-! ## Envelopes -/

namespace Notification

/-- The body of an envelope is another member than the time. -/
theorem member_ne {body : Node} (h : body.name.module.isSome) : body.jsonMember.1 ≠ "event-time" := by
  obtain ⟨m, hm⟩ := Option.isSome_iff_exists.1 h
  intro heq
  have : ':' ∈ "event-time".toList := by
    rw [← heq]
    simp [Node.jsonMember, NodeName.member, hm]
  simp at this

theorem envelope_eq {time : Instant} {body : Node} (h : body.name.module.isSome) :
    envelope time body = .object [(restconfModule ++ ":notification",
      .object [("event-time", .string time.render), body.jsonMember])] := by
  rw [envelope, Json.ofMembers_of_nodup (by simpa using (member_ne h).symm)]

/-- Equal envelopes have the text of their time in common, and bodies that are equal with their modules made
explicit. -/
theorem envelope_eq_iff {t₁ t₂ : Instant} {b₁ b₂ : Node} (h₁ : ∀ d ∈ b₁.nodes none, Node.Telling d)
    (h₂ : ∀ d ∈ b₂.nodes none, Node.Telling d) (hroot₁ : b₁.name.module.isSome) (hroot₂ : b₂.name.module.isSome) :
    envelope t₁ b₁ = envelope t₂ b₂ ↔
      t₁.render = t₂.render ∧ b₁.explicit none = b₂.explicit none := by
  rw [envelope_eq hroot₁, envelope_eq hroot₂]
  simp only [Json.object.injEq, List.cons.injEq, Prod.mk.injEq, Json.string.injEq, true_and, and_true]
  constructor
  · rintro ⟨htime, hbody⟩
    obtain ⟨hmember, hvalue⟩ := Prod.mk.inj hbody
    have hname := NodeName.resolve_of_member (Node.legible h₁) (Node.legible h₂) hmember
    refine ⟨htime, Node.explicit_of_jsonValue none b₁ b₂ h₁ h₂ hname ?_⟩
    simpa [NodeName.effectiveModule] using hvalue
  · rintro ⟨htime, hbody⟩
    exact ⟨htime, by rw [← Node.jsonMember_explicit b₁, hbody, Node.jsonMember_explicit]⟩

end Notification

end YangSubscriptions
