import YangSubscriptions.Data.Json
import YangSubscriptions.Filter.Json
import YangSubscriptions.Filter.Stream
import YangSubscriptions.Instant.Rfc3339
import YangSubscriptions.Json.Reader
import YangSubscriptions.Json.Writer
import YangSubscriptions.Notification.Event
import YangSubscriptions.Subscription.State
import YangSubscriptions.Xml.Element
import YangSubscriptions.Xml.Writer

/-!
# Errors of the subscription protocol

Why a request is refused, with the error tag of RFC 6241, the error identity of RFC 8639 where there
is one, and the reply that reports it.
-/

namespace YangSubscriptions

/-- The error tags of RFC 6241 that are used (`ErrorTag`). -/
inductive ErrorTag where
  | invalidValue
  | missingElement
  | operationFailed
  | operationNotSupported
  | inUse
  deriving DecidableEq, Repr

def ErrorTag.name : ErrorTag → String
  | invalidValue => "invalid-value"
  | missingElement => "missing-element"
  | operationFailed => "operation-failed"
  | operationNotSupported => "operation-not-supported"
  | inUse => "in-use"

def ErrorTag.all : List ErrorTag := [.invalidValue, .missingElement, .operationFailed, .operationNotSupported, .inUse]

def ErrorTag.ofName? (name : String) : Option ErrorTag := all.find? (·.name = name)

/-- What is wrong with the content of a request. -/
inductive Invalid where
  | filter (fault : FilterFault)
  | path (fault : PathFault)
  | filterMember (fault : FilterJsonFault)
  | xml (fault : Xml.Fault)
  | json (fault : Json.SyntaxError)
  | inputNotObject
  | unexpectedMember (name : String)
  | unexpectedInput (name : String)
  | notString (name : String) (found : Json)
  | subscriptionId (text : String)
  | time (name value : String) (fault : Instant.Fault)
  | encoding (value : String)
  | severalFilters
  | oneEntryExpected
  | entryNotObject
  | unexpectedEntry (name : String)
  | filterWithoutContent (name : String)
  | filterOfFilter (name : String)
  | filterNameDiffers (entry resource : String)
  | noId
  | noStream
  | noFilterName
  | noFilter
  | replayUnsupported (stream : String)
  | replayInFuture
  | replayAfterStop
  | stopInPast
  | unknownResource (path : String)
  | other (tag : ErrorTag) (message : String)
  deriving Repr

namespace Invalid

/-- The tag of a fault: something is missing, or what is there is not right. -/
def tag : Invalid → ErrorTag
  | xml (.missingElement _) | filterWithoutContent _ | noId | noStream | noFilterName | noFilter => .missingElement
  | other t _ => t
  | _ => .invalidValue

/-- What a client is told about a fault. -/
def message : Invalid → String
  | filter f => f.message
  | path f => f.message
  | filterMember f => f.message
  | xml (.missingElement name) => s!"required element `{name}` is missing"
  | xml f => f.message
  | json f => s!"malformed JSON input: {f.message}"
  | inputNotObject => "RPC input must be a JSON object"
  | unexpectedMember name => s!"unexpected member `{name}`, expecting `{subscribedNotifications}:input`"
  | unexpectedInput name =>
    s!"unexpected element `{name}`, expecting `input` in namespace {subscribedNotificationsXmlns}"
  | notString name found => s!"`{name}` must be a string, found {found.render}"
  | subscriptionId text => s!"invalid subscription id {text}"
  | time name value fault => s!"invalid `{name}` value `{value}`: {fault.message}"
  | encoding value => s!"unsupported encoding `{value}`"
  | severalFilters => "stream filters are mutually exclusive, at most one can be given"
  | oneEntryExpected => "exactly one stream-filter entry is expected"
  | entryNotObject => "stream-filter entry must be a JSON object"
  | unexpectedEntry name => s!"unexpected element `{name}`, expecting `stream-filter`"
  | filterWithoutContent name => s!"stream filter {name} has no filter"
  | filterOfFilter name => s!"stream filter {name} cannot refer to another stream filter"
  | filterNameDiffers entry resource =>
    s!"stream filter name {entry} does not match the resource name {resource}"
  | noId => "No subscription id specified"
  | noStream => "No stream specified"
  | noFilterName => "No stream filter name specified"
  | noFilter => "No stream filter specified"
  | replayUnsupported stream => s!"stream {stream} does not support replay"
  | replayInFuture => "replay-start-time is in the future"
  | replayAfterStop => "replay-start-time is later than stop-time"
  | stopInPast => "stop-time is in the past"
  | unknownResource p => s!"unknown data resource {p}"
  | other _ m => m

end Invalid

/-- Why a request is refused, before or after its content was understood. -/
inductive SubscriptionError where
  | unknownStream (name : String)
  | unknownFilter (name : String)
  | unknownSubscription (id : SubscriptionId)
  | notFound (id : SubscriptionId)
  | wrongSession (id : SubscriptionId)
  | notActive (id : SubscriptionId)
  | receiverAttached (id : SubscriptionId)
  | illegalTransition (id : SubscriptionId) (origin target : SubscriptionState)
  | invalid (cause : Invalid)
  | notSupported (what : String)
  | operationFailed (cause : String)
  | internal (cause : String)
  deriving Repr

namespace SubscriptionError

/-- What a client is told about an error. -/
def message : SubscriptionError → String
  | unknownStream name => s!"{name} refers to an unknown stream"
  | unknownFilter name => s!"{name} refers to an unknown stream filter"
  | unknownSubscription id => s!"no subscription with id {id}"
  | notFound id => s!"subscription {id} not found"
  | wrongSession id => s!"subscription {id} is not owned by the requesting session"
  | notActive _ => "no active or suspended subscription with given id"
  | receiverAttached id => s!"subscription {id} already has a receiver attached"
  | illegalTransition id origin target => s!"subscription {id} cannot move from {origin.name} to {target.name}"
  | invalid cause => cause.message
  | notSupported what => s!"operation not supported: {what}"
  | operationFailed cause => s!"operation failed: {cause}"
  | internal cause => s!"internal error: {cause}"

/-- The tag of an error (`error_tag`). -/
def tag : SubscriptionError → ErrorTag
  | unknownStream _ | unknownFilter _ | unknownSubscription _ | notFound _ | wrongSession _ | notActive _ =>
    .invalidValue
  | invalid cause => cause.tag
  | notSupported _ => .operationNotSupported
  | receiverAttached _ => .inUse
  | illegalTransition _ _ _ | operationFailed _ | internal _ => .operationFailed

/-- The error identity of the protocol (`error_app_tag`). -/
def appTag : SubscriptionError → Option String
  | unknownStream _ => some (subscribedNotifications ++ ":stream-unavailable")
  | unknownFilter _ => some (subscribedNotifications ++ ":filter-unavailable")
  | unknownSubscription _ | notFound _ | notActive _ => some (subscribedNotifications ++ ":no-such-subscription")
  | _ => none

end SubscriptionError

/-- The reply that reports an error (`RpcError`). -/
structure ErrorReply where
  tag : ErrorTag
  appTag : Option String
  message : String
  deriving DecidableEq, Repr

namespace ErrorReply

def ofError (e : SubscriptionError) : ErrorReply := ⟨e.tag, e.appTag, e.message⟩

/-- The reply as JSON, in the errors of RFC 8040 (`to_json`). -/
def toJson (r : ErrorReply) : Json :=
  .object [(restconfModule ++ ":errors", .object [("error", .array [.object (
    [("error-type", .string "application"), ("error-tag", .string r.tag.name), ("error-message", .string r.message)] ++
      (r.appTag.map fun t => ("error-app-tag", Json.string t)).toList)])])]

/-- The reply as XML, in the errors of RFC 8040 (`to_xml`). -/
def toXml (r : ErrorReply) : String :=
  let w := Xml.Writer.new.startElement "errors" (some restconfXmlns)
  let w := w.startElement "error" none
  let w := w.textElement "error-type" none "application"
  let w := w.textElement "error-tag" none r.tag.name
  let w := match r.appTag with
    | some t => w.textElement "error-app-tag" none t
    | none => w
  let w := w.textElement "error-message" none r.message
  String.ofList ((w.endElement "error").endElement "errors").output

def encode (r : ErrorReply) : Encoding → String
  | .json => r.toJson.render
  | .xml => r.toXml

end ErrorReply

end YangSubscriptions
