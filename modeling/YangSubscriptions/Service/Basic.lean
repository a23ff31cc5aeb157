import YangSubscriptions.Datastore
import YangSubscriptions.Delivery.Dispatcher
import YangSubscriptions.Router
import YangSubscriptions.Subscription.Registry

/-!
# The subscription service

The state of a server: streams and subscriptions, the datastore that records them, the feeds and
listeners that carry notifications, and the deadlines of subscriptions with a stop-time. `journal`
holds every state change that was told, delivered or not, in its order.
-/

namespace YangSubscriptions

/-- The state of a server between two steps. -/
structure Service where
  now : Instant
  schema : Schema
  streams : Streams
  registry : Registry
  datastore : Datastore
  router : Router
  dispatcher : Dispatcher
  deadlines : Table SubscriptionId Instant
  journal : List StateChange

namespace Service

/-- A service with these streams, each with a feed of its own (`start`). -/
def start (now : Instant) (schema : Schema) (configs : List StreamConfig) : Service :=
  let streams := Streams.new now configs
  { now, schema, streams
    registry := .empty
    datastore := .empty
    router := streams.names.foldl (fun r name => r.subscribe name (.forStream name)) .empty
    dispatcher := .empty
    deadlines := .empty
    journal := [] }

end Service

end YangSubscriptions
