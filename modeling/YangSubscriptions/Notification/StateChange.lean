import YangSubscriptions.Filter.Stream
import YangSubscriptions.Notification.Event

/-!
# State changes of subscriptions

The notifications that tell a receiver about its subscription itself.
-/

namespace YangSubscriptions

/-- Why a subscription was ended (`SubscriptionTerminatedReason`). -/
inductive TerminationReason where
  | noSuchSubscription
  | streamUnavailable
  | filterUnavailable
  | suspensionTimeout
  | killed
  deriving DecidableEq, Repr

def TerminationReason.name : TerminationReason → String
  | noSuchSubscription => "no-such-subscription"
  | streamUnavailable => "stream-unavailable"
  | filterUnavailable => "filter-unavailable"
  | suspensionTimeout => "suspension-timeout"
  | killed => "killed"

def TerminationReason.all : List TerminationReason :=
  [.noSuchSubscription, .streamUnavailable, .filterUnavailable, .suspensionTimeout, .killed]

def TerminationReason.ofName? (name : String) : Option TerminationReason := all.find? (·.name = name)

/-- Why a subscription was suspended (`SubscriptionSuspendedReason`). -/
inductive SuspensionReason where
  | insufficientResources
  | unsupportableVolume
  | filterUnavailable
  deriving DecidableEq, Repr

def SuspensionReason.name : SuspensionReason → String
  | insufficientResources => "insufficient-resources"
  | unsupportableVolume => "unsupportable-volume"
  | filterUnavailable => "filter-unavailable"

def SuspensionReason.all : List SuspensionReason := [.insufficientResources, .unsupportableVolume, .filterUnavailable]

def SuspensionReason.ofName? (name : String) : Option SuspensionReason := all.find? (·.name = name)

/-- An identity of the protocol's module (`identity`). -/
def identityOf (name : String) : String := subscribedNotifications ++ ":" ++ name

/-- What is told of a subscription that was started or modified (`SubscriptionStartedModified`). -/
structure Terms where
  id : SubscriptionId
  stream : String
  filter : Option StreamFilter
  stopTime : Option Instant
  encoding : Encoding
  replayStartTime : Option Instant
  deriving Repr, Inhabited

/-- The terms as data (`children`). -/
def Terms.children (t : Terms) : List Node :=
  [.int "id" t.id.toNat, .text "stream" t.stream] ++ (t.filter.map StreamFilter.toNode).toList ++
    (t.replayStartTime.map fun u => Node.text "replay-start-time" u.render).toList ++
    (t.stopTime.map fun u => Node.text "stop-time" u.render).toList ++ [.text "encoding" t.encoding.identity]

/-- What its receiver is told of a subscription (`StateChangeNotification`). -/
inductive StateChange where
  | started (terms : Terms)
  | modified (terms : Terms)
  | suspended (id : SubscriptionId) (reason : SuspensionReason)
  | resumed (id : SubscriptionId)
  | terminated (id : SubscriptionId) (reason : TerminationReason)
  | completed (id : SubscriptionId)
  | replayCompleted (id : SubscriptionId)
  deriving Repr, Inhabited

namespace StateChange

def name : StateChange → String
  | started _ => "subscription-started"
  | modified _ => "subscription-modified"
  | suspended _ _ => "subscription-suspended"
  | resumed _ => "subscription-resumed"
  | terminated _ _ => "subscription-terminated"
  | completed _ => "subscription-completed"
  | replayCompleted _ => "replay-completed"

/-- The subscription that it is about. -/
def id : StateChange → SubscriptionId
  | started t | modified t => t.id
  | suspended i _ | resumed i | terminated i _ | completed i | replayCompleted i => i

/-- Is it the last of its subscription (`is_terminal`)? -/
def isTerminal : StateChange → Bool
  | terminated _ _ | completed _ => true
  | _ => false

/-- What is told, as data. -/
def children : StateChange → List Node
  | started t | modified t => t.children
  | suspended i r => [.int "id" i.toNat, .text "reason" (identityOf r.name)]
  | terminated i r => [.int "id" i.toNat, .text "reason" (identityOf r.name)]
  | resumed i | completed i | replayCompleted i => [.int "id" i.toNat]

/-- The body of the notification (`to_node`). -/
def toNode (c : StateChange) : Node := .container (.qualified subscribedNotifications c.name) c.children

end StateChange

end YangSubscriptions
