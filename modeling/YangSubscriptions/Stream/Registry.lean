import YangSubscriptions.Rpc.Error
import YangSubscriptions.Stream.Config
import YangSubscriptions.Table

/-!
# Streams and named filters

The streams of a server, with the notifications each keeps for replay, and the filters stored under
a name. Every server has the stream `NETCONF`.
-/

namespace YangSubscriptions

/-- The stream that carries every notification. -/
def netconfStream : String := "NETCONF"

/-- The latest notifications of a stream, the oldest first (`ReplayBuffer`). -/
structure ReplayLog where
  capacity : Nat
  created : Instant
  notifications : List Notification
  deriving Repr

namespace ReplayLog

/-- Keeps a notification, and lets go of the oldest one when the log is full. -/
def record (log : ReplayLog) (n : Notification) : ReplayLog :=
  let kept := if log.notifications.length = log.capacity then log.notifications.drop 1 else log.notifications
  { log with notifications := kept ++ [n] }

/-- What was kept from `start` to `stop`, by the time of the notifications. -/
def between (log : ReplayLog) (start : Instant) (stop : Option Instant) : List Notification :=
  log.notifications.filter fun n => start.le n.time && stop.all n.time.le

/-- The time of the first notification, or that of the log if it is empty. -/
def oldest (log : ReplayLog) : Instant := (log.notifications.head?.map (·.time)).getD log.created

end ReplayLog

/-- What is known of a stream; one without replay has no log. -/
structure EventStream where
  description : Option String
  log : Option ReplayLog
  deriving Repr

def EventStream.ofConfig (now : Instant) (c : StreamConfig) : EventStream :=
  ⟨c.description, if 0 < c.replaySize then some ⟨c.replaySize, now, []⟩ else none⟩

/-- A filter that subscriptions refer to by name. -/
structure NamedFilter where
  filter : StreamFilter
  resolved : ResolvedFilter
  deriving Repr

/-- The streams and the stored filters, each by name (`StreamRegistry`). -/
structure Streams where
  streams : Table String EventStream
  filters : Table String NamedFilter

namespace Streams

def defaultConfig : StreamConfig := ⟨netconfStream, some "Default NETCONF event stream", 0⟩

/-- The configured streams and the default one. Of two with one name the later holds. -/
def new (now : Instant) (configs : List StreamConfig) : Streams :=
  let t : Table String EventStream := configs.foldl (fun t c => t.insert c.name (.ofConfig now c)) .empty
  ⟨if t.contains netconfStream then t else t.insert netconfStream (.ofConfig now defaultConfig), .empty⟩

def contains (s : Streams) (name : String) : Bool := s.streams.contains name

/-- Adds a stream unless its name is taken; tells whether it was added (`add_stream`). -/
def add (now : Instant) (s : Streams) (c : StreamConfig) : Bool × Streams :=
  if s.contains c.name then (false, s) else (true, { s with streams := s.streams.insert c.name (.ofConfig now c) })

def names (s : Streams) : List String := s.streams.keys

def log? (s : Streams) (name : String) : Option ReplayLog := (s.streams.get? name).bind (·.log)

/-- Does the stream keep notifications (`supports_replay`)? -/
def supportsReplay (s : Streams) (name : String) : Bool := (s.log? name).isSome

/-- Keeps a notification for replay on a stream (`record`). -/
def record (s : Streams) (name : String) (n : Notification) : Streams :=
  { s with streams := s.streams.modify name fun e => { e with log := e.log.map (·.record n) } }

/-- The notifications that a stream can replay from `start` to `stop` (`replay`). -/
def replay (s : Streams) (name : String) (start : Instant) (stop : Option Instant) : List Notification :=
  ((s.log? name).map (·.between start stop)).getD []

/-- From when a stream can replay, as an establish request is told (`oldest_event_time`). -/
def oldest? (s : Streams) (name : String) : Option Instant := (s.log? name).map (·.oldest)

/-- The streams as operational data (`to_node`). -/
def toNode (s : Streams) : Node :=
  .container (.qualified subscribedNotifications "streams") [.list (.bare "stream") (s.streams.entries.map
    fun (name, e) => [Node.text "name" name] ++ (e.description.map (Node.text "description")).toList ++
      (e.log.map fun l => [Node.leaf (.bare "replay-support") .empty,
        Node.text "replay-log-creation-time" l.created.render]).getD [])]

/-! ## Filters -/

/-- The filter itself, for a name the one stored under it. -/
def lookUp (s : Streams) : Option StreamFilter → Except SubscriptionError ResolvedFilter
  | none => .ok .all
  | some (.named name) =>
    match s.filters.get? name with
    | some f => .ok f.resolved
    | none => .error (.unknownFilter name)
  | some f => .ok f.resolved

/-- The filter itself, if it is valid under the schema (`resolve_filter`). -/
def resolve (s : Streams) (schema : Schema) (filter : Option StreamFilter) : Except SubscriptionError ResolvedFilter := do
  let resolved ← s.lookUp filter
  (resolved.validate schema).mapError fun f => .invalid (.filter f)
  .ok resolved

/-- Stores a filter under a name; tells whether the name is new (`put_filter`). -/
def putFilter (s : Streams) (schema : Schema) (name : String) (filter : StreamFilter) :
    Except SubscriptionError (Bool × Streams) :=
  match filter with
  | .named _ => .error (.invalid (.filterOfFilter name))
  | filter => do
    let resolved ← s.resolve schema (some filter)
    .ok (!s.filters.contains name, { s with filters := s.filters.insert name ⟨filter, resolved⟩ })

/-- Removes the filter of a name; none if there is none (`remove_filter`). -/
def removeFilter (s : Streams) (name : String) : Option Streams :=
  if s.filters.contains name then some { s with filters := s.filters.erase name } else none

end Streams

end YangSubscriptions
