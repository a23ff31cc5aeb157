import YangSubscriptions.Data.Json
import YangSubscriptions.Data.Xml
import YangSubscriptions.Instant.Rfc3339
import YangSubscriptions.Json.Writer
import YangSubscriptions.Notification.Encoding

/-!
# Notifications

A notification as it is published, and the message it becomes for one subscription: the body in an
envelope with the event time, as JSON or XML text.
-/

namespace YangSubscriptions

/-- Subscriptions are numbered with 32 bits. -/
abbrev SubscriptionId := UInt32

/-- A notification as it is published, on one stream (`NotificationEvent`). -/
structure Notification where
  stream : String
  time : Instant
  body : Node
  deriving Repr, Inhabited

/-- The body with its time, in the envelope of RFC 8040 (`encode_notification`). -/
def Notification.envelope (time : Instant) (body : Node) : Json :=
  .object [(restconfModule ++ ":notification",
    .ofMembers [("event-time", .string time.render), body.jsonMember])]

/-- The body with its time, in the envelope of RFC 5277 (`encode_notification`). -/
def Notification.xmlEnvelope (s : Schema) (time : Instant) (body : Node) : Except NoNamespace String := do
  let ns := some notificationXmlns
  let content ← body.xmlChars s none ns
  .ok (String.ofList (Xml.startTagChars none "notification" ns ++
    Xml.textElementChars ns "eventTime" none time.render ++ content ++ Xml.endTagChars "notification"))

/-- A message for the receiver of a subscription (`EncodedEvent`). -/
structure Message where
  id : SubscriptionId
  encoding : Encoding
  payload : String
  deriving DecidableEq, Repr, Inhabited

/-- Encodes a body for a subscription (`encode`). -/
def Message.encode (id : SubscriptionId) (encoding : Encoding) (time : Instant) (body : Node) (s : Schema) :
    Except NoNamespace Message :=
  match encoding with
  | .json => .ok ⟨id, .json, (Notification.envelope time body).render⟩
  | .xml => (Notification.xmlEnvelope s time body).map fun text => ⟨id, .xml, text⟩

end YangSubscriptions
