import YangSubscriptions.Proofs.Instant.Rfc3339
import YangSubscriptions.Proofs.Rpc.Filters
import YangSubscriptions.Rpc.Request

/-!
# Requests in both encodings

A request is a list of arguments, each of which is written as a member or as an element of its name. Whatever the
encoding, input that has the arguments of a request and no others is read as this request (`ofInput_eq`). JSON and XML
input are such input for the writings of a request (`presents_ofMembers`, `presents_ofChildren`), whatever order and
prefixes they have, and so both are read as the request that was written; only the modules that the simple form of JSON
leaves out of a subtree filter are not read (`ofBody_written`).
-/

namespace YangSubscriptions

/-- What a request says about one of its parameters. -/
inductive Argument where
  | id (id : SubscriptionId)
  | stream (name : String)
  | subtree (filter : SubtreeFilter)
  | path (filter : PathFilter)
  | filterName (name : String)
  | encoding (encoding : Encoding)
  | stopTime (time : Instant)
  | replayStartTime (time : Instant)

/-- The freedom that the encodings leave to a request: which names and identities have the prefix of the protocol's
module, whether an id is a text or a number in JSON, and whether the root element is named as the operation. -/
structure RequestStyle where
  inputPrefix : Bool
  namePrefix : String → Bool
  identityPrefix : Bool
  idText : Bool
  operationRoot : Bool
  filter : FilterStyle

namespace Argument

def name : Argument → String
  | id _ => "id"
  | stream _ => "stream"
  | subtree _ => "stream-subtree-filter"
  | path _ => "stream-xpath-filter"
  | filterName _ => "stream-filter-name"
  | encoding _ => "encoding"
  | stopTime _ => "stop-time"
  | replayStartTime _ => "replay-start-time"

/-- The text of an argument; a subtree filter has none. -/
def text (style : RequestStyle) : Argument → String
  | id n => toString n.toNat
  | stream v | filterName v => v
  | subtree _ => ""
  | path f => f.expression
  | encoding e => if style.identityPrefix then e.identity else e.localName
  | stopTime t | replayStartTime t => t.render

def toJson (style : RequestStyle) : Argument → Json
  | id n => if style.idText then .string (toString n.toNat) else .int n.toNat
  | subtree f => .ofMembers (f.members style.filter)
  | a => .string (a.text style)

def children (s : Schema) : Argument → List Xml.Element
  | subtree f => FilterNode.elements s f.roots
  | _ => []

/-- Is the argument written as a text in both encodings? -/
def IsText : Argument → Prop
  | id _ | subtree _ => False
  | _ => True

/-- The argument as it is read from JSON. -/
def asRead (style : FilterStyle) : Argument → Argument
  | subtree f => .subtree (f.asRead style)
  | a => a

/-- The element of an argument. -/
def element (s : Schema) (style : RequestStyle) (a : Argument) : Xml.Element :=
  .mk (some subscribedNotificationsXmlns) a.name (a.text style) (a.children s)

/-- An argument that both encodings can say. -/
def IsSayable (s : Schema) : Argument → Prop
  | id _ | encoding _ => True
  | stream v | filterName v => Text.trim v = v
  | subtree f => f.IsSayable s
  | path f => ∃ text, PathFilter.parse text = .ok f
  | stopTime t | replayStartTime t => t.IsOnClock ∧ 0 ≤ t.year ∧ t.year ≤ 9999

end Argument

namespace StreamFilter

def argument : StreamFilter → Argument
  | subtree f => .subtree f
  | path f => .path f
  | named name => .filterName name

/-- The filter as it is read from JSON. -/
def asRead (style : FilterStyle) : StreamFilter → StreamFilter
  | subtree f => .subtree (f.asRead style)
  | f => f

end StreamFilter

namespace Request

def operation : Request → Operation
  | establish _ => .establish
  | modify _ => .modify
  | delete _ => .delete
  | kill _ => .kill

def arguments : Request → List Argument
  | establish r =>
    (r.stream.map .stream).toList ++ (r.filter.map StreamFilter.argument).toList ++ (r.encoding.map .encoding).toList ++
      (r.stopTime.map .stopTime).toList ++ (r.replayStartTime.map .replayStartTime).toList
  | modify r =>
    .id r.id :: (r.filter.map StreamFilter.argument).toList ++ (r.encoding.map .encoding).toList ++
      (r.stopTime.map .stopTime).toList
  | delete i | kill i => [.id i]

/-- A request whose arguments both encodings can say. -/
def IsSayable (s : Schema) (r : Request) : Prop := ∀ a ∈ r.arguments, a.IsSayable s

/-- The request as it is read from JSON. -/
def asRead (style : FilterStyle) : Request → Request
  | establish r => .establish { r with filter := r.filter.map (·.asRead style) }
  | modify r => .modify { r with filter := r.filter.map (·.asRead style) }
  | r => r

end Request

namespace RequestStyle

/-- A name of the protocol, with or without the prefix. -/
def prefixed (withPrefix : Bool) (name : String) : String :=
  if withPrefix then subscribedNotifications ++ ":" ++ name else name

/-- The members of arguments in JSON. -/
def members (style : RequestStyle) (args : List Argument) : List (String × Json) :=
  args.map fun a => (prefixed (style.namePrefix a.name) a.name, a.toJson style)

/-- Arguments in JSON. -/
def json (style : RequestStyle) (args : List Argument) : Json :=
  .object [(prefixed style.inputPrefix "input", .object (style.members args))]

/-- Arguments in XML. -/
def xml (style : RequestStyle) (s : Schema) (op : Operation) (args : List Argument) : Xml.Element :=
  .mk (some subscribedNotificationsXmlns) (if style.operationRoot then op.name else "input") ""
    (args.map (·.element s style))

end RequestStyle

/-! ## Names -/

theorem unprefixed_eq_self {name : String} (h : ColonFree name) : unprefixed name = name := by
  rw [unprefixed, if_neg]
  rw [List.isPrefixOf_iff_prefix]
  exact fun hmark => h (hmark.subset (by simp))

theorem RequestStyle.unprefixed_prefixed (withPrefix : Bool) {name : String} (h : ColonFree name) :
    unprefixed (prefixed withPrefix name) = name := by
  cases withPrefix
  · exact unprefixed_eq_self h
  · simp [prefixed, unprefixed, List.isPrefixOf_iff_prefix]

theorem Argument.colonFree_name (a : Argument) : ColonFree a.name := by
  cases a <;> (simp only [name]; decide)

/-! ## Input that has arguments -/

namespace Input

/-- Asked for its parameter the input answers with the argument. -/
def Has (i : Input) : Argument → Prop
  | .id n => i.id = .ok n
  | .stream v => i.text "stream" = .ok (some v)
  | .subtree f => i.subtree = .ok (some f)
  | .path f => ∃ v, i.text "stream-xpath-filter" = .ok (some v) ∧ PathFilter.parse v = .ok f
  | .filterName v => i.text "stream-filter-name" = .ok (some v)
  | .encoding e => i.encoding = .ok (some e)
  | .stopTime t => i.time "stop-time" = .ok (some t)
  | .replayStartTime t => i.time "replay-start-time" = .ok (some t)

/-- The arguments are in the input, and nothing else is. -/
structure Presents (i : Input) (args : List Argument) : Prop where
  has : ∀ a ∈ args, i.Has a
  text : ∀ name, name ∉ args.map Argument.name → i.text name = .ok none
  subtree : "stream-subtree-filter" ∉ args.map Argument.name → i.subtree = .ok none

theorem Presents.of_perm {i : Input} {args args' : List Argument} (h : i.Presents args) (hperm : args.Perm args') :
    i.Presents args' where
  has a ha := h.has a (hperm.mem_iff.2 ha)
  text name hname := h.text name fun hmem => hname ((hperm.map _).mem_iff.1 hmem)
  subtree hname := h.subtree fun hmem => hname ((hperm.map _).mem_iff.1 hmem)

end Input

namespace Request

/-- The arguments of a request by its fields. -/
def Says : Request → Argument → Prop
  | .establish r, .stream v => r.stream = some v
  | .establish r, .subtree f => r.filter = some (.subtree f)
  | .establish r, .path f => r.filter = some (.path f)
  | .establish r, .filterName v => r.filter = some (.named v)
  | .establish r, .encoding e => r.encoding = some e
  | .establish r, .stopTime t => r.stopTime = some t
  | .establish r, .replayStartTime t => r.replayStartTime = some t
  | .modify r, .id n => r.id = n
  | .modify r, .subtree f => r.filter = some (.subtree f)
  | .modify r, .path f => r.filter = some (.path f)
  | .modify r, .filterName v => r.filter = some (.named v)
  | .modify r, .encoding e => r.encoding = some e
  | .modify r, .stopTime t => r.stopTime = some t
  | .delete i, .id n => i = n
  | .kill i, .id n => i = n
  | _, _ => False

theorem mem_filter_argument {o : Option StreamFilter} {a : Argument} :
    a ∈ (o.map StreamFilter.argument).toList ↔
      match a with
      | .subtree f => o = some (.subtree f)
      | .path f => o = some (.path f)
      | .filterName v => o = some (.named v)
      | _ => False := by
  rcases o with _ | (f | f | v) <;> cases a <;> simp [StreamFilter.argument, eq_comm]

theorem mem_arguments {r : Request} {a : Argument} : a ∈ r.arguments ↔ r.Says a := by
  cases r with
  | establish r =>
    simp only [arguments, List.mem_append, mem_filter_argument]
    cases a <;> simp [Says]
  | modify r =>
    simp only [arguments, List.mem_append, List.mem_cons, mem_filter_argument]
    cases a <;> simp [Says, eq_comm]
  | delete i => cases a <;> simp [arguments, Says, eq_comm]
  | kill i => cases a <;> simp [arguments, Says, eq_comm]

theorem names_sublist {α : Type} (f : α → Argument) {name : String} (h : ∀ v, (f v).name = name) (o : Option α) :
    ((o.map f).toList.map Argument.name).Sublist [name] := by
  cases o <;> simp [h]

/-- There are three names for a filter. -/
theorem exists_name_filter (o : Option StreamFilter) :
    ∃ name ∈ ["stream-subtree-filter", "stream-xpath-filter", "stream-filter-name"],
      ((o.map StreamFilter.argument).toList.map Argument.name).Sublist [name] := by
  rcases o with _ | (f | f | v) <;> simp [StreamFilter.argument, Argument.name]

theorem nodup_names (r : Request) : (r.arguments.map Argument.name).Nodup := by
  cases r with
  | establish r =>
    obtain ⟨name, hname, hfilter⟩ := exists_name_filter r.filter
    have hnodup : (["stream"] ++ [name] ++ ["encoding"] ++ ["stop-time"] ++ ["replay-start-time"]).Nodup := by
      simp only [List.mem_cons, List.not_mem_nil, or_false] at hname
      rcases hname with rfl | rfl | rfl <;> decide
    refine hnodup.sublist ?_
    simp only [arguments, List.map_append]
    exact ((((names_sublist .stream (fun _ => rfl) _).append hfilter).append
      (names_sublist .encoding (fun _ => rfl) _)).append (names_sublist .stopTime (fun _ => rfl) _)).append
      (names_sublist .replayStartTime (fun _ => rfl) _)
  | modify r =>
    obtain ⟨name, hname, hfilter⟩ := exists_name_filter r.filter
    have hnodup : (["id"] ++ [name] ++ ["encoding"] ++ ["stop-time"]).Nodup := by
      simp only [List.mem_cons, List.not_mem_nil, or_false] at hname
      rcases hname with rfl | rfl | rfl <;> decide
    refine hnodup.sublist ?_
    simp only [arguments, List.map_append, List.map_cons]
    exact (((List.Sublist.refl ["id"]).append hfilter).append (names_sublist .encoding (fun _ => rfl) _)).append
      (names_sublist .stopTime (fun _ => rfl) _)
  | delete i => simp [arguments]
  | kill i => simp [arguments]

end Request

namespace Input

variable {i : Input} {r : Request}

theorem time_eq_none {name : String} (h : i.text name = .ok none) : i.time name = .ok none := by
  rw [time, h]
  rfl

theorem encoding_eq_none (h : i.text "encoding" = .ok none) : i.encoding = .ok none := by
  rw [encoding, h]
  rfl

theorem Presents.text_eq_none (h : i.Presents r.arguments) {name : String} (hno : ∀ a, r.Says a → a.name ≠ name) :
    i.text name = .ok none := by
  apply h.text
  intro hmem
  obtain ⟨a, ha, hname⟩ := List.mem_map.1 hmem
  exact hno a (Request.mem_arguments.1 ha) hname

theorem Presents.subtree_eq_none (h : i.Presents r.arguments) (hno : ∀ f, ¬ r.Says (.subtree f)) :
    i.subtree = .ok none := by
  apply h.subtree
  intro hmem
  obtain ⟨a, ha, hname⟩ := List.mem_map.1 hmem
  cases a <;> simp [Argument.name] at hname
  exact hno _ (Request.mem_arguments.1 ha)

/-- Of three filters only the one that the request has is in the input. -/
theorem Presents.filter_eq (h : i.Presents r.arguments) {o : Option StreamFilter}
    (hfields : ∀ f ∈ o, r.Says f.argument) (honly : ∀ f : StreamFilter, r.Says f.argument → f ∈ o) : i.filter = .ok o := by
  have hsubtree : (∀ f, o ≠ some (.subtree f)) → i.subtree = .ok none := fun hno =>
    h.subtree_eq_none fun f hf => hno f (honly (.subtree f) hf)
  have hpath : (∀ f, o ≠ some (.path f)) → i.text "stream-xpath-filter" = .ok none := fun hno =>
    h.text_eq_none fun a ha hname => by
      cases a <;> simp [Argument.name] at hname
      exact hno _ (honly (.path _) ha)
  have hnamed : (∀ v, o ≠ some (.named v)) → i.text "stream-filter-name" = .ok none := fun hno =>
    h.text_eq_none fun a ha hname => by
      cases a <;> simp [Argument.name] at hname
      exact hno _ (honly (.named _) ha)
  have hhas : ∀ f ∈ o, i.Has f.argument := fun f hf => h.has _ (Request.mem_arguments.2 (hfields f hf))
  rcases o with _ | (f | f | v)
  · rw [filter, hsubtree (by simp), hpath (by simp), hnamed (by simp)]
    rfl
  · rw [filter, show i.subtree = .ok (some f) from hhas _ rfl, hpath (by simp), hnamed (by simp)]
    rfl
  · obtain ⟨text, htext, hparse⟩ := hhas _ rfl
    rw [filter, hsubtree (by simp), htext, hnamed (by simp)]
    simp only [bind, Except.bind, hparse]
    rfl
  · rw [filter, hsubtree (by simp), hpath (by simp), show i.text "stream-filter-name" = .ok (some v) from hhas _ rfl]
    rfl

/-- A field that is asked for by a name of its own. -/
theorem Presents.field_eq {α : Type} (h : i.Presents r.arguments) (make : α → Argument) {name : String}
    (hname : ∀ a : Argument, a.name = name → ∃ v, a = make v) {asked : Except Invalid (Option α)}
    (hhas : ∀ v, i.Has (make v) → asked = .ok (some v)) (hnone : i.text name = .ok none → asked = .ok none)
    {o : Option α} (ho : ∀ v, r.Says (make v) ↔ o = some v) : asked = .ok o := by
  cases o with
  | none =>
    -- no other argument has the name, so the input has nothing of it
    refine hnone (h.text_eq_none fun a ha heq => ?_)
    obtain ⟨v, rfl⟩ := hname a heq
    cases (ho v).1 ha
  | some v => exact hhas v (h.has _ (Request.mem_arguments.2 ((ho v).2 rfl)))

theorem Presents.encoding_eq (h : i.Presents r.arguments) {o : Option Encoding}
    (ho : ∀ e, r.Says (.encoding e) ↔ o = some e) : i.encoding = .ok o :=
  h.field_eq .encoding (fun a ha => by cases a <;> simp_all [Argument.name]) (fun _ he => he) encoding_eq_none ho

theorem Presents.stopTime_eq (h : i.Presents r.arguments) {o : Option Instant}
    (ho : ∀ t, r.Says (.stopTime t) ↔ o = some t) : i.time "stop-time" = .ok o :=
  h.field_eq .stopTime (fun a ha => by cases a <;> simp_all [Argument.name]) (fun _ ht => ht) time_eq_none ho

/-- Input that has the arguments of a request is read as the request. -/
theorem Presents.ofInput_eq (h : i.Presents r.arguments) : Request.ofInput i r.operation = .ok r := by
  have hid : ∀ {n}, r.Says (.id n) → i.id = .ok n := fun ha => h.has _ (Request.mem_arguments.2 ha)
  cases r with
  | establish r =>
    have hstream : i.text "stream" = .ok r.stream :=
      h.field_eq .stream (fun a ha => by cases a <;> simp_all [Argument.name]) (fun _ hv => hv) (fun hv => hv)
        fun _ => Iff.rfl
    have hfilter : i.filter = .ok r.filter :=
      h.filter_eq (fun f hf => by cases f <;> exact hf) (fun f hf => by cases f <;> exact hf)
    have hencoding : i.encoding = .ok r.encoding := h.encoding_eq fun _ => Iff.rfl
    have hstop : i.time "stop-time" = .ok r.stopTime := h.stopTime_eq fun _ => Iff.rfl
    have hreplay : i.time "replay-start-time" = .ok r.replayStartTime :=
      h.field_eq .replayStartTime (fun a ha => by cases a <;> simp_all [Argument.name]) (fun _ ht => ht) time_eq_none
        fun _ => Iff.rfl
    rw [Request.operation, Request.ofInput, EstablishRequest.ofInput, hstream, hfilter, hencoding, hstop, hreplay]
    rfl
  | modify r =>
    have hfilter : i.filter = .ok r.filter :=
      h.filter_eq (fun f hf => by cases f <;> exact hf) (fun f hf => by cases f <;> exact hf)
    have hencoding : i.encoding = .ok r.encoding := h.encoding_eq fun _ => Iff.rfl
    have hstop : i.time "stop-time" = .ok r.stopTime := h.stopTime_eq fun _ => Iff.rfl
    rw [Request.operation, Request.ofInput, ModifyRequest.ofInput, hid rfl, hfilter, hstop, hencoding]
    rfl
  | delete n =>
    rw [Request.operation, Request.ofInput, hid rfl]
    rfl
  | kill n =>
    rw [Request.operation, Request.ofInput, hid rfl]
    rfl

end Input

/-! ## Texts of arguments -/

section
variable (n : SubscriptionId)

theorem SubscriptionId.toList_toString : (toString n.toNat).toList = Nat.toDigits 10 n.toNat := by
  rw [Nat.toString_eq_ofList_toDigits, String.toList_ofList]

theorem SubscriptionId.isDigit_toString : ∀ c ∈ (toString n.toNat).toList, c.isDigit = true := by
  rw [toList_toString]
  exact fun c hc => Nat.isDigit_of_mem_toDigits (by decide) (by decide) hc

/-- An id is read from its digits. -/
theorem SubscriptionId.parse?_toString : parse? (toString n.toNat).toList = some n := by
  have hdigits := isDigit_toString n
  have hfold : (toString n.toNat).toList.foldl (fun n c => 10 * n + (c.toNat - 48)) 0 = n.toNat := by
    rw [toList_toString]
    exact Nat.ofDigitChars_toDigits (by decide) (by decide)
  have hne : (toString n.toNat).toList ≠ [] := by
    rw [toList_toString]
    exact Nat.toDigits_ne_nil
  have hlt : n.toNat < UInt32.size := n.toNat_lt_size
  generalize (toString n.toNat).toList = cs at hdigits hfold hne
  unfold parse?
  split
  · have := hdigits '+' List.mem_cons_self
    simp at this
  · simp [hne, List.all_eq_true.2 hdigits, hfold, hlt]

theorem Input.idOfText_toString : idOfText (toString n.toNat) = .ok n := by
  have htrimmed : Text.Trimmed (toString n.toNat).toList :=
    ⟨fun c hc => Text.isBlank_of_isDigit (SubscriptionId.isDigit_toString n c (List.mem_of_mem_head? hc)),
      fun c hc => Text.isBlank_of_isDigit (SubscriptionId.isDigit_toString n c (List.mem_of_mem_getLast? hc))⟩
  rw [idOfText, Text.trimChars_eq_self htrimmed, SubscriptionId.parse?_toString]

theorem Input.idOfInt_toNat :
    (if 0 ≤ (n.toNat : Int) ∧ (n.toNat : Int) < UInt32.size then Except.ok (.ofNat (n.toNat : Int).toNat)
      else .error (Invalid.subscriptionId (Json.int n.toNat).render)) = .ok n := by
  have hlt : n.toNat < UInt32.size := n.toNat_lt_size
  rw [if_pos (by omega), Int.toNat_natCast, UInt32.ofNat_toNat]

end

/-- A path is its expression without outer blanks, which is read again as the path. -/
theorem PathFilter.parse_expression {text : String} {f : PathFilter} (h : parse text = .ok f) :
    Text.trim f.expression = f.expression ∧ parse f.expression = .ok f := by
  have hexpression : f.expression = String.ofList (Text.trimChars text.toList) := by
    unfold parse at h
    simp only at h
    split at h
    · cases h
    · obtain ⟨parts, -, h⟩ := exists_ok_of_bind h
      obtain ⟨roots, -, h⟩ := exists_ok_of_bind h
      rw [← Except.ok.inj h]
  have htrim : Text.trimChars f.expression.toList = Text.trimChars text.toList := by
    rw [hexpression, String.toList_ofList, Text.trimChars_eq_self (Text.trimmed_trimChars _)]
  have hsame : parse f.expression = parse text := by
    unfold parse
    rw [htrim]
  exact ⟨by rw [Text.trim, htrim, hexpression], hsame.trans h⟩

theorem Encoding.ofIdentity?_identity (e : Encoding) : ofIdentity? e.identity = some e := by cases e <;> rfl

theorem Encoding.ofIdentity?_localName (e : Encoding) : ofIdentity? e.localName = some e := by cases e <;> rfl

namespace Argument

variable {s : Schema} (style : RequestStyle)

theorem kinds (a : Argument) : (∃ n, a = .id n) ∨ (∃ f, a = .subtree f) ∨ a.IsText := by
  cases a <;> simp [IsText]

theorem names_asRead (style : FilterStyle) (args : List Argument) :
    (args.map (·.asRead style)).map name = args.map name := by
  rw [List.map_map]
  refine List.map_congr_left fun a _ => ?_
  cases a <;> rfl

/-- No text of an argument has blanks at its ends. -/
theorem trim_text {a : Argument} (h : a.IsSayable s) : Text.trim (a.text style) = a.text style := by
  cases a with
  | id n => exact Text.trim_eq_self fun c hc => Text.isBlank_of_isDigit (SubscriptionId.isDigit_toString n c hc)
  | stream v => exact h
  | filterName v => exact h
  | subtree f => rfl
  | path f =>
    obtain ⟨text, hparse⟩ := h
    exact (PathFilter.parse_expression hparse).1
  | encoding e =>
    rw [text]
    split <;> cases e <;> rfl
  | stopTime t => exact Text.trim_eq_self (Instant.not_blank_render h.2)
  | replayStartTime t => exact Text.trim_eq_self (Instant.not_blank_render h.2)

end Argument

namespace Input

variable {s : Schema} (style : RequestStyle) {i : Input}

theorem time_eq {name : String} {t : Instant} (htext : i.text name = .ok (some t.render)) (hclock : t.IsOnClock)
    (hyear : 0 ≤ t.year ∧ t.year ≤ 9999) : i.time name = .ok (some t) := by
  rw [time, htext]
  simp only [bind, Except.bind, Text.trim_eq_self (Instant.not_blank_render hyear), Instant.parse_render hclock hyear]

/-- An argument that is written as a text is in the input with its text. -/
theorem has_of_text {a : Argument} (h : a.IsSayable s) (hkind : a.IsText)
    (htext : i.text a.name = .ok (some (a.text style))) : i.Has a := by
  have htrim := a.trim_text style h
  cases a with
  | id n => cases hkind
  | stream v => exact htext
  | subtree f => cases hkind
  | path f =>
    obtain ⟨text, hparse⟩ := h
    exact ⟨_, htext, (PathFilter.parse_expression hparse).2⟩
  | filterName v => exact htext
  | encoding e =>
    have hread : Encoding.ofIdentity? (Argument.text style (.encoding e)) = some e := by
      rw [Argument.text]
      split
      · exact e.ofIdentity?_identity
      · exact e.ofIdentity?_localName
    rw [Has, encoding, show i.text "encoding" = _ from htext]
    simp only [bind, Except.bind, htrim, hread]
  | stopTime t => exact time_eq htext h.1 h.2
  | replayStartTime t => exact time_eq htext h.1 h.2

/-! ## JSON -/

section
variable {args : List Argument} (h : ∀ a ∈ args, a.IsSayable s)
include h

/-- Input whose members without prefix are those of arguments. -/
theorem presents_of_members {ms : List (String × Json)} (all : Json)
    (hall : Json.ofMembers (ms.map fun (name, v) => (unprefixed name, v)) = all)
    (hfound : ∀ a ∈ args, all.member? a.name = some (a.toJson style))
    (habsent : ∀ name, name ∉ args.map Argument.name → all.member? name = none) :
    (ofMembers ms).Presents (args.map (·.asRead style.filter)) := by
  subst hall
  constructor
  · intro b hb
    obtain ⟨a, ha, rfl⟩ := List.mem_map.1 hb
    have hvalue := hfound a ha
    rcases a.kinds with ⟨n, rfl⟩ | ⟨f, rfl⟩ | hkind
    · show (ofMembers ms).id = .ok n
      rw [ofMembers]
      cases htext : style.idText with
      | true =>
        have hmember : Argument.toJson style (.id n) = .string (toString n.toNat) := if_pos htext
        rw [Argument.name, hmember] at hvalue
        simp only [hvalue]
        exact idOfText_toString n
      | false =>
        have hmember : Argument.toJson style (.id n) = .number (.int n.toNat) := if_neg (by simp [htext])
        rw [Argument.name, hmember] at hvalue
        simp only [hvalue]
        exact idOfInt_toNat n
    · rw [Argument.name, Argument.toJson] at hvalue
      rw [Argument.asRead, Has, ofMembers]
      simp only [hvalue, SubtreeFilter.ofJson_members (h _ ha) style.filter]
      rfl
    · have hsame : a.asRead style.filter = a := by cases a <;> first | rfl | cases hkind
      have htoJson : a.toJson style = .string (a.text style) := by cases a <;> first | rfl | cases hkind
      rw [hsame]
      refine has_of_text style (h a ha) hkind ?_
      simp only [ofMembers, hvalue, htoJson]
  · intro name hname
    rw [Argument.names_asRead] at hname
    simp only [ofMembers, habsent name hname]
  · intro hname
    rw [Argument.names_asRead] at hname
    simp only [ofMembers, habsent _ hname]

/-- The members of arguments. -/
theorem presents_ofMembers (hnodup : (args.map Argument.name).Nodup) :
    (ofMembers (style.members args)).Presents (args.map (·.asRead style.filter)) := by
  have hnames : ((args.map fun a => (a.name, a.toJson style)).map (·.1)).Nodup := by
    simpa [Function.comp_def] using hnodup
  refine presents_of_members style h (.object (args.map fun a => (a.name, a.toJson style))) ?_ ?_ ?_
  · rw [RequestStyle.members, List.map_map]
    simp only [Function.comp_def, RequestStyle.unprefixed_prefixed _ (Argument.colonFree_name _)]
    exact Json.ofMembers_of_nodup hnames
  · exact fun a ha => Json.member?_object hnames (List.mem_map.2 ⟨a, ha, rfl⟩)
  · exact fun name hname => Json.member?_object_eq_none (by simpa [Function.comp_def] using hname)

/-! ## XML -/

/-- The child elements of arguments. -/
theorem presents_ofChildren (hnodup : (args.map Argument.name).Nodup) {e : Xml.Element}
    (hchildren : e.children = args.map (·.element s style)) : (ofChildren s e).Presents args := by
  have hnames : (args.map (·.element s style)).map Xml.Element.name = args.map Argument.name := List.map_map
  have hfound : ∀ a ∈ args, e.child? a.name = some (a.element s style) := fun a ha => by
    rw [Xml.Element.child?, hchildren]
    exact find?_of_nodup (hnames ▸ hnodup) (List.mem_map.2 ⟨a, ha, rfl⟩)
  have habsent : ∀ name, name ∉ args.map Argument.name → e.child? name = none := fun name hname => by
    rw [Xml.Element.child?, hchildren, List.find?_eq_none]
    intro c hc heq
    exact hname (hnames ▸ List.mem_map.2 ⟨c, hc, by simpa using heq⟩)
  have htext : ∀ a ∈ args, (a.element s style).text = a.text style := fun a ha => a.trim_text style (h a ha)
  constructor
  · intro a ha
    have hchild := hfound a ha
    rcases a.kinds with ⟨n, rfl⟩ | ⟨f, rfl⟩ | hkind
    · rw [Argument.name] at hchild
      rw [Has, ofChildren]
      simp only [hchild, htext _ ha]
      exact idOfText_toString n
    · rw [Argument.name] at hchild
      rw [Has, ofChildren]
      simp only [hchild]
      rw [SubtreeFilter.ofXml_elements (h _ ha) rfl]
      rfl
    · refine has_of_text style (h a ha) hkind ?_
      simp only [ofChildren, hchild, Option.map_some, htext a ha]
  · intro name hname
    simp only [ofChildren, habsent name hname, Option.map_none]
  · intro hname
    simp only [ofChildren, habsent _ hname]

end

end Input

namespace Request

theorem map_asRead {α : Type} (style : FilterStyle) {f : α → Argument} (h : ∀ v, (f v).asRead style = f v)
    (o : Option α) : (o.map f).toList.map (·.asRead style) = (o.map f).toList := by
  cases o <;> simp [h]

theorem map_asRead_filter (style : FilterStyle) (o : Option StreamFilter) :
    ((o.map (·.asRead style)).map StreamFilter.argument).toList =
      (o.map StreamFilter.argument).toList.map (·.asRead style) := by
  rcases o with _ | (f | f | v) <;> rfl

theorem arguments_asRead (style : FilterStyle) (r : Request) :
    (r.asRead style).arguments = r.arguments.map (·.asRead style) := by
  cases r with
  | establish r =>
    simp only [asRead, arguments, List.map_append, map_asRead_filter, map_asRead style (f := .stream) fun _ => rfl,
      map_asRead style (f := .encoding) fun _ => rfl, map_asRead style (f := .stopTime) fun _ => rfl,
      map_asRead style (f := .replayStartTime) fun _ => rfl]
  | modify r =>
    simp only [asRead, arguments, List.map_append, List.map_cons, map_asRead_filter,
      map_asRead style (f := .encoding) fun _ => rfl, map_asRead style (f := .stopTime) fun _ => rfl]
    rfl
  | delete i => rfl
  | kill i => rfl

theorem asRead_eq_self {style : FilterStyle} (h : style.simple = false) (r : Request) : r.asRead style = r := by
  have hsubtree : ∀ f : SubtreeFilter, f.asRead style = f := fun f => if_neg (by simp [h])
  have hfilter : ∀ f : StreamFilter, f.asRead style = f := fun f => by
    cases f <;> simp [StreamFilter.asRead, hsubtree]
  cases r <;> simp [asRead, hfilter]

theorem input_json (s : Schema) (op : Operation) (style : RequestStyle) (args : List Argument) :
    RequestBody.input s op (.json (style.json args)) = .ok (.ofMembers (style.members args)) := by
  have hinput : unprefixed (RequestStyle.prefixed style.inputPrefix "input") = "input" :=
    RequestStyle.unprefixed_prefixed _ (by decide)
  rw [RequestBody.input, RequestStyle.json, Input.ofJson, if_pos hinput]

theorem input_xml (s : Schema) (op : Operation) (style : RequestStyle) (args : List Argument) :
    RequestBody.input s op (.xml (style.xml s op args)) = .ok (.ofChildren s (style.xml s op args)) := by
  rw [RequestBody.input, Input.ofXml, if_pos]
  refine ⟨rfl, ?_⟩
  cases h : style.operationRoot <;> simp [RequestStyle.xml, Xml.Element.name, h]

/-- A request is read as it was written, in both encodings and whatever the order of its arguments. Only in the simple
form of JSON the modules that a subtree filter leaves out are not read. -/
theorem ofBody_written (s : Schema) (r : Request) (hsayable : r.IsSayable s) (style : RequestStyle) (args : List Argument)
    (hargs : args.Perm r.arguments) :
    ofBody s r.operation (.json (style.json args)) = .ok (r.asRead style.filter) ∧
      (style.filter.simple = false → r.asRead style.filter = r) ∧
      ofBody s r.operation (.xml (style.xml s r.operation args)) = .ok r := by
  have hsay : ∀ a ∈ args, a.IsSayable s := fun a ha => hsayable a (hargs.mem_iff.1 ha)
  have hnodup : (args.map Argument.name).Nodup := (hargs.map _).nodup_iff.2 r.nodup_names
  refine ⟨?_, (asRead_eq_self · r), ?_⟩
  · have hpresents := (Input.presents_ofMembers style hsay hnodup).of_perm
      (arguments_asRead style.filter r ▸ hargs.map _)
    have hop : (r.asRead style.filter).operation = r.operation := by cases r <;> rfl
    rw [ofBody]
    exact ok_of_bind (input_json s _ style args) (hop ▸ hpresents.ofInput_eq)
  · have hpresents := (Input.presents_ofChildren style hsay hnodup (e := style.xml s r.operation args) rfl).of_perm hargs
    rw [ofBody]
    exact ok_of_bind (input_xml s _ style args) hpresents.ofInput_eq

/-- A modification in the simple form, with members and elements in another order than the request has its parameters. -/
theorem ofBody_written_modify :
    ofBody ⟨[⟨"m", "urn:m", none⟩, ⟨"n", "urn:n", none⟩], []⟩ .modify
        (.json (.object [("ietf-subscribed-notifications:input", .object [
          ("stop-time", .string "2026-03-04T05:06:07Z"),
          ("stream-subtree-filter", .object [("m:a", .array [.object [("b", .number (.int 5)), ("n:c", .array [.null])]])]),
          ("ietf-subscribed-notifications:id", .number (.int 2147483648))])])) =
      .ok (.modify ⟨2147483648, some (.subtree ⟨[.containment ⟨some "m", "a"⟩
        [.content ⟨none, "b"⟩ "5", .containment ⟨some "n", "c"⟩ []]]⟩), none, some ⟨1772600767, 0⟩⟩) ∧
    ofBody ⟨[⟨"m", "urn:m", none⟩, ⟨"n", "urn:n", none⟩], []⟩ .modify
        (.xml (.mk (some subscribedNotificationsXmlns) "modify-subscription" "" [
          .mk (some subscribedNotificationsXmlns) "stop-time" "2026-03-04T05:06:07Z" [],
          .mk (some subscribedNotificationsXmlns) "stream-subtree-filter" "" [
            .mk (some "urn:m") "a" "" [.mk (some "urn:m") "b" "5" [], .mk (some "urn:n") "c" "" []]],
          .mk (some subscribedNotificationsXmlns) "id" "2147483648" []])) =
      .ok (.modify ⟨2147483648, some (.subtree ⟨[.containment ⟨some "m", "a"⟩
        [.content ⟨some "m", "b"⟩ "5", .containment ⟨some "n", "c"⟩ []]]⟩), none, some ⟨1772600767, 0⟩⟩) := by
  have hsayable : IsSayable ⟨[⟨"m", "urn:m", none⟩, ⟨"n", "urn:n", none⟩], []⟩
      (.modify ⟨2147483648, some (.subtree ⟨[.containment ⟨some "m", "a"⟩
        [.content ⟨some "m", "b"⟩ "5", .containment ⟨some "n", "c"⟩ []]]⟩), none, some ⟨1772600767, 0⟩⟩) := by
    intro a ha
    rw [mem_arguments] at ha
    cases a with
    | id n => trivial
    | subtree f =>
      obtain rfl := StreamFilter.subtree.inj (Option.some.inj ha)
      show SubtreeFilter.IsSayable _ _
      decide
    | stopTime t =>
      obtain rfl := Option.some.inj ha
      show _ ∧ _
      decide
    | _ => cases ha
  have hread := ofBody_written _ _ hsayable
    { inputPrefix := true
      namePrefix := (· = "id")
      identityPrefix := false
      idText := false
      operationRoot := true
      filter := {
        simple := true
        selection := fun _ => .nulls
        leaf := fun _ t => if t = "5" then .number (.int 5) else .string t
        text_leaf := by
          intro n t
          split
          · rename_i h
            rw [h]
            rfl
          · rfl
        listed := (·.name = "a") } }
    _ (List.reverse_perm _)
  exact ⟨hread.1, hread.2.2⟩

/-- In the simple form a filter for a node of one module is read as a filter for that name in any module. And although all
modules are said, a module with a colon is read as another one, and so is an instant with a leap second out of place. -/
theorem ofBody_written_differs :
    (ofBody ⟨[⟨"m", "urn:m", none⟩], []⟩ .establish (.json (.object [("ietf-subscribed-notifications:input", .object [
          ("stream-subtree-filter", .object [("m:a", .object [("b", .null)])])])])) =
        .ok (.establish ⟨none, some (.subtree ⟨[.containment ⟨some "m", "a"⟩ [.containment ⟨none, "b"⟩ []]]⟩), none, none,
          none⟩) ∧
      ofBody ⟨[⟨"m", "urn:m", none⟩], []⟩ .establish (.xml (.mk (some subscribedNotificationsXmlns) "input" "" [
          .mk (some subscribedNotificationsXmlns) "stream-subtree-filter" "" [
            .mk (some "urn:m") "a" "" [.mk (some "urn:m") "b" "" []]]])) =
        .ok (.establish ⟨none, some (.subtree ⟨[.containment ⟨some "m", "a"⟩ [.containment ⟨some "m", "b"⟩ []]]⟩), none,
          none, none⟩)) ∧
    (ofBody ⟨[⟨"a:b", "urn:x", none⟩], []⟩ .establish (.json (.object [("ietf-subscribed-notifications:input", .object [
          ("stream-subtree-filter", .object [("a:b:c", .null)])])])) =
        .ok (.establish ⟨none, some (.subtree ⟨[.containment ⟨some "a", "b:c"⟩ []]⟩), none, none, none⟩) ∧
      ofBody ⟨[⟨"a:b", "urn:x", none⟩], []⟩ .establish (.xml (.mk (some subscribedNotificationsXmlns) "input" "" [
          .mk (some subscribedNotificationsXmlns) "stream-subtree-filter" "" [.mk (some "urn:x") "c" "" []]])) =
        .ok (.establish ⟨none, some (.subtree ⟨[.containment ⟨some "a:b", "c"⟩ []]⟩), none, none, none⟩)) ∧
    ofBody ⟨[], []⟩ .establish (.json (.object [("ietf-subscribed-notifications:input", .object [
        ("stop-time", .string (Instant.render ⟨0, 1500000000⟩))])])) =
      .ok (.establish ⟨none, none, none, some ⟨1, 500000000⟩, none⟩) := by
  exact ⟨⟨rfl, rfl⟩, ⟨rfl, rfl⟩, rfl⟩

end Request

end YangSubscriptions
