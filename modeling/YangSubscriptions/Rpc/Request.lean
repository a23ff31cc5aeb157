import YangSubscriptions.Json.Record
import YangSubscriptions.Rpc.Input

/-!
# Requests

What each operation asks for, and the answer to an establish request.
-/

namespace YangSubscriptions

/-- What a client asks for that has no subscription yet (`EstablishSubscriptionInput`). -/
structure EstablishRequest where
  stream : Option String
  filter : Option StreamFilter
  encoding : Option Encoding
  stopTime : Option Instant
  replayStartTime : Option Instant
  deriving Repr, Inhabited

/-- What is to be different; what is not given stays (`ModifySubscriptionInput`). -/
structure ModifyRequest where
  id : SubscriptionId
  filter : Option StreamFilter
  encoding : Option Encoding
  stopTime : Option Instant
  deriving Repr, Inhabited

/-- A request with its parameters (`RpcRequest`). -/
inductive Request where
  | establish (request : EstablishRequest)
  | modify (request : ModifyRequest)
  | delete (id : SubscriptionId)
  | kill (id : SubscriptionId)
  deriving Repr, Inhabited

namespace EstablishRequest

/-- Reads the parameters in the order in which their faults are reported. -/
def ofInput (i : Input) : Except Invalid EstablishRequest := do
  let stream ← i.text "stream"
  let filter ← i.filter
  let encoding ← i.encoding
  let stopTime ← i.time "stop-time"
  let replayStartTime ← i.time "replay-start-time"
  .ok { stream, filter, encoding, stopTime, replayStartTime }

end EstablishRequest

namespace ModifyRequest

def ofInput (i : Input) : Except Invalid ModifyRequest := do
  let id ← i.id
  let filter ← i.filter
  let stopTime ← i.time "stop-time"
  let encoding ← i.encoding
  .ok { id, filter, encoding, stopTime }

end ModifyRequest

namespace Request

def ofInput (i : Input) : Operation → Except Invalid Request
  | .establish => (EstablishRequest.ofInput i).map .establish
  | .modify => (ModifyRequest.ofInput i).map .modify
  | .delete => i.id.map .delete
  | .kill => i.id.map .kill

/-- The request of an operation with that body (`parse`). -/
def ofBody (s : Schema) (op : Operation) (body : RequestBody) : Except Invalid Request := do
  ofInput (← body.input s op) op

/-- The request of an operation with the text of a body. -/
def parse (s : Schema) (op : Operation) (encoding : Encoding) (text : String) : Except Invalid Request := do
  ofBody s op (← RequestBody.parse encoding text)

end Request

/-! ## Filter entries -/

/-- A filter with the name it is stored under (`StreamFilterEntry`). -/
structure FilterEntry where
  name : String
  filter : StreamFilter
  deriving Repr, Inhabited

namespace FilterEntry

/-- A stored filter is a filter itself, not the name of one (`try_new`). -/
def ofParts (name : String) : Option StreamFilter → Except Invalid FilterEntry
  | none => .error (.filterWithoutContent name)
  | some (.named _) => .error (.filterOfFilter name)
  | some filter => .ok ⟨name, filter⟩

/-- The entry that these parameters give. -/
def ofInput (i : Input) : Except Invalid FilterEntry := do
  match ← i.text "name" with
  | none => .error .noFilterName
  | some name => ofParts name (← i.filter)

/-- The object that holds an entry: the value itself or the one entry of its only member. -/
def entryOf : Json → Except Invalid Json
  | .object [(name, v)] =>
    if unprefixed name = "stream-filter" then
      match v with
      | .array [entry] => .ok entry
      | .object _ => .ok v
      | _ => .error .oneEntryExpected
    else .ok (.object [(name, v)])
  | v => .ok v

/-- The entry of a JSON body (`from_json`). -/
def ofJson (v : Json) : Except Invalid FilterEntry := do
  match ← entryOf v with
  | .object members => ofInput (.ofMembers members)
  | _ => .error .entryNotObject

/-- The entry of an XML body (`from_xml`). -/
def ofXml (s : Schema) (e : Xml.Element) : Except Invalid FilterEntry :=
  if e.namespaceName = some subscribedNotificationsXmlns ∧ e.name = "stream-filter" then
    ofInput (.ofChildren s e)
  else .error (.unexpectedEntry e.name)

/-- The entry in a body; none in a blank one. -/
def ofBody (s : Schema) : RequestBody → Except Invalid (Option FilterEntry)
  | .blank => .ok none
  | .json v => (ofJson v).map some
  | .xml e => (ofXml s e).map some

end FilterEntry

/-! ## The answer to an establish request -/

/-- The id that was given, and where replay starts if that is later than asked for (`EstablishSubscriptionOutput`). -/
structure EstablishReply where
  id : SubscriptionId
  revision : Option Instant
  deriving DecidableEq, Repr, Inhabited

namespace EstablishReply

/-- The answer as JSON (`to_json`). -/
def toJson (r : EstablishReply) : Json :=
  .object [(subscribedNotifications ++ ":output", .object ([("id", .int r.id.toNat)] ++
    Json.optionalMember "replay-start-time-revision" (r.revision.map fun t => .string t.render)))]

/-- The answer as XML (`to_xml`). -/
def toXml (r : EstablishReply) : String :=
  let w := Xml.Writer.new.startElement "output" (some subscribedNotificationsXmlns)
  let w := w.textElement "id" none (toString r.id)
  let w := match r.revision with
    | some t => w.textElement "replay-start-time-revision" none t.render
    | none => w
  String.ofList (w.endElement "output").output

def encode (r : EstablishReply) : Encoding → String
  | .json => r.toJson.render
  | .xml => r.toXml

end EstablishReply

end YangSubscriptions
