import YangSubscriptions.Notification.StateChange
import YangSubscriptions.Stream.Registry
import YangSubscriptions.Subscription.Session

/-!
# The subscription registry

The subscriptions of a server with their states, by id and by session. How many messages a
subscription was sent, and how many its filter excluded, is counted apart from its record, so that a
record that is put back goes on counting where it stopped.
-/

namespace YangSubscriptions

/-- What a new subscription is made from (`SubscriptionSpec`). -/
structure SubscriptionRequest where
  stream : String
  filter : Option StreamFilter
  resolved : ResolvedFilter
  encoding : Encoding
  stopTime : Option Instant
  replayStartTime : Option Instant
  session : Session
  deriving Repr

/-- A record of the registry. `resolved` is what `filter` stood for when it was last looked up. -/
structure Subscription where
  id : SubscriptionId
  stream : String
  filter : Option StreamFilter
  resolved : ResolvedFilter
  encoding : Encoding
  stopTime : Option Instant
  replayStartTime : Option Instant
  session : Session
  state : SubscriptionState
  suspension : Option SuspensionReason
  deriving Repr

namespace Subscription

/-- The record of a subscription that has yet to become active. -/
def new (id : SubscriptionId) (r : SubscriptionRequest) : Subscription :=
  ⟨id, r.stream, r.filter, r.resolved, r.encoding, r.stopTime, r.replayStartTime, r.session, .start, none⟩

/-- What its receiver is told when it starts or changes (`started_modified`). -/
def terms (s : Subscription) : Terms := ⟨s.id, s.stream, s.filter, s.stopTime, s.encoding, s.replayStartTime⟩

/-- The record of the subscription in the datastore (`to_json`). A subtree filter is not part of it. -/
def toJson (s : Subscription) : Json :=
  .object ([("id", .int s.id.toNat), ("stream", .string s.stream), ("encoding", .string s.encoding.identity)] ++
    Json.optionalMember "stop-time" (s.stopTime.map fun t => .string t.render) ++
    match s.filter with
    | some (.named name) => [("stream-filter-name", .string name)]
    | some (.path f) => [("stream-xpath-filter", .string f.expression)]
    | some (.subtree _) | none => [])

end Subscription

/-- Counts of a receiver, modulo `2 ^ 64` (`ReceiverCounters`). -/
structure Tally where
  sent : UInt64
  excluded : UInt64
  deriving DecidableEq, Repr, Inhabited

/-- The first id that is given; those below belong to configured subscriptions. -/
def firstSubscriptionId : SubscriptionId := 2147483648

/-- The records and their states by id, and the ids of each session (`SubscriptionStateMachine`). -/
structure Registry where
  nextId : SubscriptionId
  subscriptions : Table SubscriptionId Subscription
  sessions : Table SessionId (Table SubscriptionId Unit)
  tallies : Table SubscriptionId Tally

namespace Registry

def empty : Registry := ⟨firstSubscriptionId, .empty, .empty, .empty⟩

/-- The record of an id that is registered (`lookup`). -/
def lookup (r : Registry) (id : SubscriptionId) : Option Subscription := r.subscriptions.get? id

def ids (r : Registry) : List SubscriptionId := r.subscriptions.keys

def size (r : Registry) : Nat := r.subscriptions.size

/-- The counts of an id, which outlive its record. -/
def tally (r : Registry) (id : SubscriptionId) : Tally := (r.tallies.get? id).getD ⟨0, 0⟩

/-- Puts a record in, under its id and its session. -/
def enter (r : Registry) (s : Subscription) : Registry :=
  let owned := (r.sessions.get? s.session.id).getD .empty
  { r with
    subscriptions := r.subscriptions.insert s.id s
    sessions := r.sessions.insert s.session.id (owned.insert s.id ()) }

/-- Takes a record out; a session keeps no empty set. -/
def leave (r : Registry) (s : Subscription) : Registry :=
  let owned := ((r.sessions.get? s.session.id).getD .empty).erase s.id
  { r with
    subscriptions := r.subscriptions.erase s.id
    sessions := if owned.size = 0 then r.sessions.erase s.session.id else r.sessions.insert s.session.id owned }

/-- Gives the next id to a new subscription on a stream that is there (`create`). -/
def create (r : Registry) (streams : Streams) (request : SubscriptionRequest) :
    Except SubscriptionError (Subscription × Registry) :=
  if streams.contains request.stream then
    let s := Subscription.new r.nextId request
    .ok (s, { r.enter s with nextId := r.nextId + 1, tallies := r.tallies.insert r.nextId ⟨0, 0⟩ })
  else .error (.unknownStream request.stream)

/-- Removes the record of an id (`delete`). -/
def delete (r : Registry) (id : SubscriptionId) : Except SubscriptionError (Subscription × Registry) :=
  match r.lookup id with
  | some s => .ok (s, r.leave s)
  | none => .error (.notFound id)

/-- Puts back a record that was removed, in that state (`reinstate`). -/
def reinstate (r : Registry) (s : Subscription) (state : SubscriptionState) : Registry :=
  r.enter { s with state := state }

/-- Changes the record of an id (`update`). -/
def update (r : Registry) (id : SubscriptionId) (f : Subscription → Subscription) : Registry :=
  { r with subscriptions := r.subscriptions.modify id f }

/-- Moves to a state that may follow, with the reason for it, and tells the state that was left (`transition`). -/
def transition (r : Registry) (id : SubscriptionId) (target : SubscriptionState) (reason : Option SuspensionReason) :
    Except SubscriptionError (SubscriptionState × Registry) :=
  match r.lookup id with
  | none => .error (.unknownSubscription id)
  | some s =>
    if s.state.canMoveTo target then
      .ok (s.state, r.update id fun s => { s with state := target, suspension := reason })
    else .error (.illegalTransition id s.state target)

/-- A step of the table; whatever the reason of a suspension was, it is gone (`move_to`). -/
def moveTo (r : Registry) (id : SubscriptionId) (target : SubscriptionState) :
    Except SubscriptionError (SubscriptionState × Registry) := r.transition id target none

/-- The step to suspended, with its reason (`suspend`). -/
def suspend (r : Registry) (id : SubscriptionId) (reason : SuspensionReason) :
    Except SubscriptionError (SubscriptionState × Registry) := r.transition id .suspended (some reason)

/-- A new subscription that is active at once. -/
def launch (r : Registry) (streams : Streams) (request : SubscriptionRequest) :
    Except SubscriptionError (Subscription × Registry) := do
  let (s, r) ← r.create streams request
  let (_, r) ← r.moveTo s.id .active
  .ok ({ s with state := .active }, r)

/-- Ends a subscription and removes its record; tells the state that was left. -/
def retire (r : Registry) (id : SubscriptionId) :
    Except SubscriptionError (Subscription × SubscriptionState × Registry) := do
  let (previous, r) ← r.moveTo id .ended
  let (removed, r) ← r.delete id
  .ok (removed, previous, r)

/-- The ids of a session's subscriptions (`subscriptions_of`). -/
def ofSession (r : Registry) (session : SessionId) : List SubscriptionId :=
  ((r.sessions.get? session).map (·.keys)).getD []

/-- Counts a message that the listener took (`record_sent`). -/
def countSent (r : Registry) (id : SubscriptionId) : Registry :=
  { r with tallies := r.tallies.insert id { r.tally id with sent := (r.tally id).sent + 1 } }

/-- Counts a notification that the filter rejected (`record_excluded`). -/
def countExcluded (r : Registry) (id : SubscriptionId) : Registry :=
  { r with tallies := r.tallies.insert id { r.tally id with excluded := (r.tally id).excluded + 1 } }

/-- The receiver of a subscription as operational data (`receivers`). -/
def receivers (r : Registry) (id : SubscriptionId) : Except SubscriptionError Node :=
  match r.lookup id with
  | none => .error (.unknownSubscription id)
  | some s => .ok (.container (.qualified subscribedNotifications "receivers") [.list (.bare "receiver") [[
      .text "name" s.session.receiverName,
      .text "sent-event-records" (toString (r.tally id).sent),
      .text "excluded-event-records" (toString (r.tally id).excluded),
      .text "state" (if s.state = .active then "active" else "suspended")]]])

end Registry

end YangSubscriptions
