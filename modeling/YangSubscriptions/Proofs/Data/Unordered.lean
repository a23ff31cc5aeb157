import Mathlib.Data.List.Nodup
import YangSubscriptions.Proofs.Data.Json

/-!
# Objects without an order

Where the order of the members of an object does not count, values are compared after it has been made the order of
their names (`Json.sorted`), and trees after their siblings have been put in the order of their members (`Node.sorted`).
Sorting commutes with the encoding (`jsonValue_sorted`). So what an envelope tells when its order counts, it tells up to
the order of siblings when it does not (`envelope_determines`).
-/

namespace YangSubscriptions

/-! ## Sorting by name -/

section
variable {α β : Type}

def byName (name : α → String) (xs : List α) : List α := xs.mergeSort fun a b => name a ≤ name b

theorem byName_perm (name : α → String) (xs : List α) : (byName name xs).Perm xs := List.mergeSort_perm xs _

theorem perm_of_byName_eq {name : α → String} {xs ys : List α} (h : byName name xs = byName name ys) : xs.Perm ys :=
  (byName_perm name xs).symm.trans ((List.Perm.of_eq h).trans (byName_perm name ys))

theorem map_byName (name : α → String) (name' : β → String) {f : α → β} (h : ∀ a, name' (f a) = name a) (xs : List α) :
    (byName name xs).map f = byName name' (xs.map f) := by
  apply List.map_mergeSort
  intro a _ b _
  rw [h, h]

theorem pairwise_byName (name : α → String) (xs : List α) : (byName name xs).Pairwise fun a b => name a ≤ name b := by
  have htrans : ∀ a b c : α, decide (name a ≤ name b) = true → decide (name b ≤ name c) = true →
      decide (name a ≤ name c) = true := by
    intro a b c hab hbc
    simp only [decide_eq_true_eq] at hab hbc ⊢
    exact String.le_trans hab hbc
  have htotal : ∀ a b : α, (decide (name a ≤ name b) || decide (name b ≤ name a)) = true := by
    intro a b
    simpa using String.le_total (name a) (name b)
  exact (List.pairwise_mergeSort htrans htotal xs).imp of_decide_eq_true

/-- What has different names is in one order only. -/
theorem byName_eq_of_perm {name : α → String} {xs ys : List α} (h : xs.Perm ys) (hnodup : (xs.map name).Nodup) :
    byName name xs = byName name ys := by
  have hperm : (byName name xs).Perm (byName name ys) :=
    (byName_perm name xs).trans (h.trans (byName_perm name ys).symm)
  refine hperm.eq_of_pairwise ?_ (pairwise_byName name xs) (pairwise_byName name ys)
  intro a b ha hb hab hba
  have hb' := (byName_perm name xs).subset (hperm.symm.subset hb)
  exact List.inj_on_of_nodup_map hnodup ((byName_perm name xs).subset ha) hb' (String.le_antisymm hab hba)

end

/-! ## Values -/

namespace Json

mutual

/-- The value with the members of every object in the order of their names. -/
def sorted : Json → Json
  | .array items => .array (sortedItems items)
  | .object ms => .object (byName (·.1) (sortedMembers ms))
  | .null => .null
  | .bool b => .bool b
  | .number n => .number n
  | .string s => .string s

def sortedItems : List Json → List Json
  | [] => []
  | v :: vs => sorted v :: sortedItems vs

def sortedMembers : List (String × Json) → List (String × Json)
  | [] => []
  | (n, v) :: ms => (n, sorted v) :: sortedMembers ms

end

theorem sortedMembers_eq_map (ms : List (String × Json)) : sortedMembers ms = ms.map fun m => (m.1, m.2.sorted) := by
  induction ms with
  | nil => rfl
  | cons m ms ih => rw [sortedMembers, ih]; rfl

/-- The order of the members is forgotten. -/
theorem sorted_eq_of_perm {ms ms' : List (String × Json)} (h : ms.Perm ms') (hnodup : (ms.map (·.1)).Nodup) :
    (object ms).sorted = (object ms').sorted := by
  rw [sorted, sorted, sortedMembers_eq_map, sortedMembers_eq_map]
  congr 1
  apply byName_eq_of_perm (h.map _)
  simpa [Function.comp_def] using hnodup

end Json

theorem LeafValue.sorted_toJson (v : LeafValue) : v.toJson.sorted = v.toJson := by
  cases v <;> simp [toJson, Json.sorted, Json.sortedItems]

theorem LeafValue.sortedItems_toJson (vs : List LeafValue) :
    Json.sortedItems (vs.map LeafValue.toJson) = vs.map LeafValue.toJson := by
  induction vs with
  | nil => rfl
  | cons v vs ih => rw [List.map_cons, Json.sortedItems, ih, v.sorted_toJson]

/-! ## Trees -/

namespace Node

mutual

/-- The tree with siblings in the order of their members; `module` is the module of the node itself. -/
def sorted (module : Option String) : Node → Node
  | .container n cs => .container n (byName (·.name.member module) (sortedList module cs))
  | .list n es => .list n (sortedEntries module es)
  | .leaf n v => .leaf n v
  | .leafList n vs => .leafList n vs

def sortedList (module : Option String) : List Node → List Node
  | [] => []
  | c :: cs => sorted (c.name.effectiveModule module) c :: sortedList module cs

def sortedEntries (module : Option String) : List (List Node) → List (List Node)
  | [] => []
  | e :: es => byName (·.name.member module) (sortedList module e) :: sortedEntries module es

end

@[simp] theorem name_sorted (module : Option String) (n : Node) : (n.sorted module).name = n.name := by
  cases n <;> rfl

theorem sortedList_eq_map (module : Option String) (cs : List Node) :
    sortedList module cs = cs.map fun c => c.sorted (c.name.effectiveModule module) := by
  induction cs with
  | nil => rfl
  | cons c cs ih => rw [sortedList, ih]; rfl

theorem sortedEntries_eq_map (module : Option String) (es : List (List Node)) :
    sortedEntries module es = es.map fun e => byName (·.name.member module) (sortedList module e) := by
  induction es with
  | nil => rfl
  | cons e es ih => rw [sortedEntries, ih]; rfl

theorem jsonMembers_byName (module : Option String) (cs : List Node) :
    jsonMembers module (byName (·.name.member module) cs) = byName (·.1) (jsonMembers module cs) := by
  rw [jsonMembers_eq_map, jsonMembers_eq_map]
  exact map_byName (fun c : Node => c.name.member module) (fun m : String × Json => m.1) (fun _ => rfl) cs

/-- Sorting the siblings sorts the members of their object. -/
theorem ofMembers_byName {module : Option String} {cs : List Node} (h : ∀ d ∈ listNodes module cs, Telling d)
    (hdistinct : (cs.map (·.name.resolve module)).Nodup)
    (hmembers : jsonMembers module (sortedList module cs) = Json.sortedMembers (jsonMembers module cs)) :
    Json.ofMembers (jsonMembers module (byName (·.name.member module) (sortedList module cs))) =
      (Json.ofMembers (jsonMembers module cs)).sorted := by
  have hnames := nodup_names h hdistinct
  rw [Json.ofMembers_of_nodup hnames, Json.sorted, jsonMembers_byName, hmembers]
  apply Json.ofMembers_of_nodup
  rw [((byName_perm _ _).map _).nodup_iff, Json.sortedMembers_eq_map]
  simpa [Function.comp_def] using hnames

mutual

theorem jsonValue_sorted (parent : Option String) : ∀ n : Node, (∀ d ∈ n.nodes parent, Telling d) →
    (n.sorted (n.name.effectiveModule parent)).jsonValue (n.name.effectiveModule parent) =
      (n.jsonValue (n.name.effectiveModule parent)).sorted
  | .container n cs, h => by
    have hcs := (h _ (self_mem_nodes parent _)).2 cs (by simp [families])
    have hnodes : ∀ d ∈ listNodes (n.effectiveModule parent) cs, Telling d := fun d hd => h d (by simp [nodes, hd])
    exact ofMembers_byName hnodes hcs (jsonMembers_sortedList _ cs hnodes)
  | .list n es, h => by
    have hes := (h _ (self_mem_nodes parent _)).2
    have hentries := jsonEntries_sortedEntries (n.effectiveModule parent) es (fun d hd => h d (by simp [nodes, hd])) hes
    simp only [name, sorted, jsonValue, Json.sorted, hentries]
  | .leaf n v, _ => v.sorted_toJson.symm
  | .leafList n vs, _ => by
    simp only [sorted, jsonValue, Json.sorted, LeafValue.sortedItems_toJson]

theorem jsonMembers_sortedList (module : Option String) : ∀ cs : List Node, (∀ d ∈ listNodes module cs, Telling d) →
    jsonMembers module (sortedList module cs) = Json.sortedMembers (jsonMembers module cs)
  | [], _ => rfl
  | c :: cs, h => by
    simp only [listNodes, List.mem_append] at h
    simp only [sortedList, jsonMembers, Json.sortedMembers, name_sorted,
      jsonValue_sorted module c fun d hd => h d (.inl hd), jsonMembers_sortedList module cs fun d hd => h d (.inr hd)]

theorem jsonEntries_sortedEntries (module : Option String) : ∀ es : List (List Node),
    (∀ d ∈ entryNodes module es, Telling d) → (∀ e ∈ es, (e.map (·.name.resolve module)).Nodup) →
    jsonEntries module (sortedEntries module es) = Json.sortedItems (jsonEntries module es)
  | [], _, _ => rfl
  | e :: es, h, hdistinct => by
    simp only [entryNodes, List.mem_append] at h
    rw [List.forall_mem_cons] at hdistinct
    have he : ∀ d ∈ listNodes module e, Telling d := fun d hd => h d (.inl hd)
    rw [sortedEntries, jsonEntries, jsonEntries, Json.sortedItems,
      ofMembers_byName he hdistinct.1 (jsonMembers_sortedList module e he),
      jsonEntries_sortedEntries module es (fun d hd => h d (.inr hd)) hdistinct.2]

end

/-! ## Nodes of a sorted tree -/

mutual

theorem exists_of_mem_sorted (parent : Option String) : ∀ (n : Node) (d : Option String × Node),
    d ∈ (n.sorted (n.name.effectiveModule parent)).nodes parent →
      ∃ d', (d.1, d') ∈ n.nodes parent ∧ d.2 = d'.sorted d.1
  | .container n cs, d, h => by
    simp only [name, sorted, nodes, List.mem_cons, mem_listNodes, (byName_perm _ _).mem_iff] at h
    rw [← mem_listNodes] at h
    rcases h with rfl | h
    · exact ⟨.container n cs, by simp [nodes], rfl⟩
    · obtain ⟨d', hd', heq⟩ := exists_of_mem_sortedList (n.effectiveModule parent) cs d h
      exact ⟨d', by simp [nodes, hd'], heq⟩
  | .list n es, d, h => by
    simp only [name, sorted, nodes, List.mem_cons] at h
    rcases h with rfl | h
    · exact ⟨.list n es, by simp [nodes], rfl⟩
    · obtain ⟨d', hd', heq⟩ := exists_of_mem_sortedEntries (n.effectiveModule parent) es d h
      exact ⟨d', by simp [nodes, hd'], heq⟩
  | .leaf n v, d, h => by
    obtain rfl : d = _ := by simpa [sorted, nodes] using h
    exact ⟨.leaf n v, by simp [nodes], rfl⟩
  | .leafList n vs, d, h => by
    obtain rfl : d = _ := by simpa [sorted, nodes] using h
    exact ⟨.leafList n vs, by simp [nodes], rfl⟩

theorem exists_of_mem_sortedList (module : Option String) : ∀ (cs : List Node) (d : Option String × Node),
    d ∈ listNodes module (sortedList module cs) → ∃ d', (d.1, d') ∈ listNodes module cs ∧ d.2 = d'.sorted d.1
  | [], _, h => by simp [sortedList, listNodes] at h
  | c :: cs, d, h => by
    simp only [sortedList, listNodes, List.mem_append] at h ⊢
    rcases h with h | h
    · obtain ⟨d', hd', heq⟩ := exists_of_mem_sorted module c d h
      exact ⟨d', .inl hd', heq⟩
    · obtain ⟨d', hd', heq⟩ := exists_of_mem_sortedList module cs d h
      exact ⟨d', .inr hd', heq⟩

theorem exists_of_mem_sortedEntries (module : Option String) :
    ∀ (es : List (List Node)) (d : Option String × Node), d ∈ entryNodes module (sortedEntries module es) →
      ∃ d', (d.1, d') ∈ entryNodes module es ∧ d.2 = d'.sorted d.1
  | [], _, h => by simp [sortedEntries, entryNodes] at h
  | e :: es, d, h => by
    simp only [sortedEntries, entryNodes, List.mem_append, mem_listNodes, (byName_perm _ _).mem_iff] at h
    rw [← mem_listNodes] at h
    simp only [entryNodes, List.mem_append]
    rcases h with h | h
    · obtain ⟨d', hd', heq⟩ := exists_of_mem_sortedList module e d h
      exact ⟨d', .inl hd', heq⟩
    · obtain ⟨d', hd', heq⟩ := exists_of_mem_sortedEntries module es d h
      exact ⟨d', .inr hd', heq⟩

end

theorem Telling.sorted {module : Option String} {d : Node} (h : Telling (module, d)) :
    Telling (module, d.sorted module) := by
  obtain ⟨hname, hfamilies⟩ := h
  have hgroup : ∀ cs : List Node, (cs.map (·.name.resolve module)).Nodup →
      ((byName (·.name.member module) (sortedList module cs)).map (·.name.resolve module)).Nodup := by
    intro cs hcs
    rw [((byName_perm _ _).map _).nodup_iff, sortedList_eq_map]
    simpa [Function.comp_def] using hcs
  refine ⟨by simpa using hname, ?_⟩
  cases d with
  | container n cs =>
    simp only [Node.sorted, families, List.mem_singleton, forall_eq] at hfamilies ⊢
    exact hgroup cs hfamilies
  | list n es =>
    simp only [Node.sorted, families, sortedEntries_eq_map, List.mem_map] at hfamilies ⊢
    rintro _ ⟨e, he, rfl⟩
    exact hgroup e (hfamilies e he)
  | leaf n v => simp [Node.sorted, families]
  | leafList n vs => simp [Node.sorted, families]

theorem telling_sorted {n : Node} (h : ∀ d ∈ n.nodes none, Telling d) :
    ∀ d ∈ (n.sorted n.name.module).nodes none, Telling d := by
  have hmodule : n.name.effectiveModule none = n.name.module := by simp [NodeName.effectiveModule]
  intro d hd
  rw [← hmodule] at hd
  obtain ⟨d', hd', heq⟩ := exists_of_mem_sorted none n d hd
  have := (h _ hd').sorted
  rwa [← heq] at this

end Node

/-! ## Envelopes -/

namespace Notification

theorem sorted_envelope {time : Instant} {body : Node} (h : ∀ d ∈ body.nodes none, Node.Telling d)
    (hroot : body.name.module.isSome) :
    (envelope time body).sorted = .object [(restconfModule ++ ":notification",
      .object (byName (·.1) [("event-time", .string time.render), (body.sorted body.name.module).jsonMember]))] := by
  have hvalue := body.jsonValue_sorted none h
  rw [show body.name.effectiveModule none = body.name.module by simp [NodeName.effectiveModule]] at hvalue
  rw [envelope_eq hroot, Node.jsonMember, Node.jsonMember, Node.name_sorted, hvalue]
  simp [Json.sorted, Json.sortedMembers, byName]

/-- Two members, one of a name that the other has not, can be told in either order. -/
theorem pair_eq_of_perm {α : Type} {name : String} {v v' : α} {m m' : String × α} (hm : m.1 ≠ name) (hm' : m'.1 ≠ name)
    (h : [(name, v), m].Perm [(name, v'), m']) : v = v' ∧ m = m' := by
  have hmem : ∀ x ∈ [(name, v), m], x ∈ [(name, v'), m'] := fun x hx => h.subset hx
  simp only [List.mem_cons, List.not_mem_nil, or_false, forall_eq_or_imp, forall_eq] at hmem
  obtain ⟨hv | rfl, rfl | rfl⟩ := hmem
  · exact absurd rfl hm
  · exact ⟨(Prod.mk.inj hv).2, rfl⟩
  · exact absurd rfl hm
  · exact absurd rfl hm'

/-- Sorting the members of an envelope sorts the siblings of its body. -/
theorem sorted_envelope_eq_iff {t₁ t₂ : Instant} {b₁ b₂ : Node} (h₁ : ∀ d ∈ b₁.nodes none, Node.Telling d)
    (h₂ : ∀ d ∈ b₂.nodes none, Node.Telling d) (hroot₁ : b₁.name.module.isSome) (hroot₂ : b₂.name.module.isSome) :
    (envelope t₁ b₁).sorted = (envelope t₂ b₂).sorted ↔
      envelope t₁ (b₁.sorted b₁.name.module) = envelope t₂ (b₂.sorted b₂.name.module) := by
  rw [sorted_envelope h₁ hroot₁, sorted_envelope h₂ hroot₂, envelope_eq (by simpa using hroot₁),
    envelope_eq (by simpa using hroot₂)]
  simp only [Json.object.injEq, List.cons.injEq, Prod.mk.injEq, true_and, and_true]
  constructor
  · intro h
    have hperm := perm_of_byName_eq h
    have hother₁ : (b₁.sorted b₁.name.module).jsonMember.1 ≠ "event-time" := member_ne (by simpa using hroot₁)
    have hother₂ : (b₂.sorted b₂.name.module).jsonMember.1 ≠ "event-time" := member_ne (by simpa using hroot₂)
    obtain ⟨htime, hbody⟩ := pair_eq_of_perm hother₁ hother₂ hperm
    exact ⟨htime, hbody⟩
  · rintro ⟨htime, hbody⟩
    rw [htime, hbody]

/-- Nothing is lost in an envelope. Equal ones have the text of their time in common, and bodies that are equal with
their modules made explicit; where the order of members does not count, so does that of siblings not. Conversely it
makes no difference to an envelope which modules are explicit in the body, whatever the body is. -/
theorem envelope_determines (t₁ t₂ : Instant) (b₁ b₂ : Node) (h₁ : ∀ d ∈ b₁.nodes none, Node.Telling d)
    (h₂ : ∀ d ∈ b₂.nodes none, Node.Telling d) (hroot₁ : b₁.name.module.isSome) (hroot₂ : b₂.name.module.isSome) :
    (envelope t₁ b₁ = envelope t₂ b₂ ↔ t₁.render = t₂.render ∧ b₁.explicit none = b₂.explicit none) ∧
      ((envelope t₁ b₁).sorted = (envelope t₂ b₂).sorted ↔
        t₁.render = t₂.render ∧
          (b₁.sorted b₁.name.module).explicit none = (b₂.sorted b₂.name.module).explicit none) ∧
      ∀ t b, envelope t (b.explicit none) = envelope t b := by
  refine ⟨envelope_eq_iff h₁ h₂ hroot₁ hroot₂, ?_, ?_⟩
  · rw [sorted_envelope_eq_iff h₁ h₂ hroot₁ hroot₂]
    exact envelope_eq_iff (Node.telling_sorted h₁) (Node.telling_sorted h₂) (by simpa using hroot₁)
      (by simpa using hroot₂)
  · intro t b
    rw [envelope, envelope, Node.jsonMember_explicit]

/-- A module that is repeated or taken over, and a list without entries or a leaf-list without values, are written in
the same way. -/
theorem envelope_repeated_eq_inherited :
    envelope ⟨0, 0⟩ (.container ⟨some "m", "top"⟩
        [.leaf ⟨some "m", "a"⟩ .empty, .list ⟨none, "b"⟩ [],
          .list ⟨some "n", "a"⟩ [[.leaf ⟨some "n", "k"⟩ (.bool true), .leaf ⟨some "m", "k"⟩ (.string "x:y")]]]) =
      envelope ⟨0, 0⟩ (.container ⟨some "m", "top"⟩
        [.leaf ⟨none, "a"⟩ .empty, .leafList ⟨some "m", "b"⟩ [],
          .list ⟨some "n", "a"⟩ [[.leaf ⟨none, "k"⟩ (.bool true), .leaf ⟨some "m", "k"⟩ (.string "x:y")]]]) :=
  (envelope_determines ⟨0, 0⟩ ⟨0, 0⟩ _ _ (by decide) (by decide) rfl rfl).1.2 ⟨rfl, rfl⟩

end Notification

end YangSubscriptions
