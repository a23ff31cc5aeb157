import YangSubscriptions.Filter.Xml
import YangSubscriptions.Rpc.Operation

/-!
# Input of requests

The parameters of a request by name, whichever encoding they come in. A reader asks for one
parameter after the other, and the first fault it meets is the one reported.
-/

namespace YangSubscriptions

/-- The body of a request as it arrived (`RpcBody`). -/
inductive RequestBody where
  | blank
  | json (value : Json)
  | xml (element : Xml.Element)
  deriving Repr, Inhabited

/-- Reads a body; one of blanks only is no document (`parse_body`). -/
def RequestBody.parse (encoding : Encoding) (text : String) : Except Invalid RequestBody :=
  if Text.trim text = "" then .ok .blank
  else
    match encoding with
    | .json => (Json.parse text).map .json |>.mapError .json
    | .xml => (Xml.parse text).map .xml |>.mapError .xml

/-- An unsigned number of 32 bits in decimal, with or without a plus sign. -/
def SubscriptionId.parse? (cs : List Char) : Option SubscriptionId :=
  let ds := match cs with
    | '+' :: r => r
    | cs => cs
  if ds.isEmpty || !ds.all Char.isDigit then none
  else
    let n := ds.foldl (fun n c => 10 * n + (c.toNat - 48)) 0
    if n < UInt32.size then some (.ofNat n) else none

/-- Parameters by name. -/
structure Input where
  text : String → Except Invalid (Option String)
  id : Except Invalid SubscriptionId
  subtree : Except Invalid (Option SubtreeFilter)

namespace Input

/-- An id between blanks (`parse_id`). -/
def idOfText (text : String) : Except Invalid SubscriptionId :=
  match SubscriptionId.parse? (Text.trimChars text.toList) with
  | some id => .ok id
  | none => .error (.subscriptionId text)

/-! ## Parameters that are not plain text -/

/-- A parameter that holds a time (`parse_date_time`). -/
def time (i : Input) (name : String) : Except Invalid (Option Instant) := do
  match ← i.text name with
  | none => .ok none
  | some value =>
    match Instant.parse (Text.trim value) with
    | .ok t => .ok (some t)
    | .error fault => .error (.time name value fault)

/-- The encoding that is asked for (`parse_encoding`). -/
def encoding (i : Input) : Except Invalid (Option Encoding) := do
  match ← i.text "encoding" with
  | none => .ok none
  | some value =>
    match Encoding.ofIdentity? (Text.trim value) with
    | some e => .ok (some e)
    | none => .error (.encoding value)

/-- The only filter that is given; of three kinds at most one may be (`single_filter`). -/
def filter (i : Input) : Except Invalid (Option StreamFilter) := do
  let subtree ← i.subtree
  let path ← match ← i.text "stream-xpath-filter" with
    | none => .ok none
    | some text => (PathFilter.parse text).map some |>.mapError Invalid.path
  let name ← i.text "stream-filter-name"
  match (subtree.map StreamFilter.subtree).toList ++ (path.map StreamFilter.path).toList ++
      (name.map StreamFilter.named).toList with
  | [] => .ok none
  | [f] => .ok (some f)
  | _ => .error .severalFilters

/-! ## JSON -/

/-- A name belongs to a parameter with or without the prefix; of two the later value holds. -/
def ofMembers (members : List (String × Json)) : Input :=
  let all := Json.ofMembers (members.map fun (name, v) => (unprefixed name, v))
  { text := fun name =>
      match all.member? name with
      | none => .ok none
      | some (.string s) => .ok (some s)
      | some v => .error (.notString name v)
    id :=
      match all.member? "id" with
      | none => .error .noId
      | some (.string s) => idOfText s
      | some (.number (.int n)) =>
        if 0 ≤ n ∧ n < UInt32.size then .ok (.ofNat n.toNat) else .error (.subscriptionId (Json.int n).render)
      | some v => .error (.subscriptionId v.render)
    subtree :=
      match all.member? "stream-subtree-filter" with
      | none => .ok none
      | some v => (SubtreeFilter.ofJson v).map some |>.mapError .filterMember }

/-- The parameters in the member `input`, which is the only one (`json_members`). -/
def ofJson : Json → Except Invalid Input
  | .null | .object [] => .ok (ofMembers [])
  | .object [(name, v)] =>
    if unprefixed name = "input" then
      match v with
      | .object members => .ok (ofMembers members)
      | .null => .ok (ofMembers [])
      | _ => .error .inputNotObject
    else .error (.unexpectedMember name)
  | .object ((name, _) :: _) => .error (.unexpectedMember name)
  | _ => .error .inputNotObject

/-! ## XML -/

/-- The parameters are child elements, in any namespace; the first of a name counts. -/
def ofChildren (s : Schema) (e : Xml.Element) : Input where
  text name := .ok ((e.child? name).map (·.text))
  id :=
    match e.child? "id" with
    | none => .error .noId
    | some c => idOfText c.text
  subtree :=
    match e.child? "stream-subtree-filter" with
    | none => .ok none
    | some c => (SubtreeFilter.ofXml s c).map some |>.mapError .xml

/-- The parameters in the element `input` or in one named as the operation (`xml_input`). -/
def ofXml (s : Schema) (op : Operation) (e : Xml.Element) : Except Invalid Input :=
  if e.namespaceName = some subscribedNotificationsXmlns ∧ (e.name = "input" ∨ e.name = op.name) then
    .ok (ofChildren s e)
  else .error (.unexpectedInput e.name)

end Input

/-- The input that a body gives to an operation. -/
def RequestBody.input (s : Schema) (op : Operation) : RequestBody → Except Invalid Input
  | blank => .ok (Input.ofMembers [])
  | json v => Input.ofJson v
  | xml e => Input.ofXml s op e

end YangSubscriptions
