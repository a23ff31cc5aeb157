import YangSubscriptions.Service.Basic

/-!
# Delivery

How notifications reach listeners. A notification that a feed yields is kept for replay on the
feed's stream and offered to every attached subscription; the verdict on an offer depends on the
subscription alone. State changes go to the listener of their subscription without an offer.
-/

namespace YangSubscriptions

/-- What becomes of a notification that is offered to a subscription. -/
inductive Verdict where
  | unaffected
  | excluded
  | unencodable
  | message (content : Message)
  deriving DecidableEq, Repr

/-- Only an active subscription on the same stream is affected (`prepare`). -/
def Subscription.verdict (s : Subscription) (schema : Schema) (stream : String) (n : Notification) : Verdict :=
  if s.stream ≠ stream ∨ s.state ≠ .active then .unaffected
  else
    match s.resolved.apply n.body with
    | none => .excluded
    | some body =>
      match Message.encode s.id s.encoding n.time body schema with
      | .ok m => .message m
      | .error _ => .unencodable

namespace Service

/-- What becomes of a notification on that stream; an id without a record takes none. -/
def verdict (s : Service) (id : SubscriptionId) (stream : String) (n : Notification) : Verdict :=
  match s.registry.lookup id with
  | some sub => sub.verdict s.schema stream n
  | none => .unaffected

/-- Gives a message to the listener of a subscription and counts it if it is accepted (`send_to_listener`). -/
def give (s : Service) (id : SubscriptionId) (m : Message) : Bool × Service :=
  match s.dispatcher.push? id m with
  | some d => (true, { s with dispatcher := d, registry := s.registry.countSent id })
  | none => (false, s)

/-- Carries out the verdict for one subscription. -/
def offer (s : Service) (id : SubscriptionId) (stream : String) (n : Notification) : Service :=
  match s.verdict id stream n with
  | .unaffected | .unencodable => s
  | .excluded => { s with registry := s.registry.countExcluded id }
  | .message m => (s.give id m).2

/-- Handles a notification that a stream's feed yields (`handle_event`). -/
def handle (s : Service) (stream : String) (n : Notification) : Service :=
  let s := { s with
    streams := s.streams.record stream n
    dispatcher := s.dispatcher.dropClosed }
  s.dispatcher.attached.keys.foldl (fun s id => s.offer id stream n) s

/-! ## Feeds -/

/-- Hands a notification to the feeds; tells to how many. -/
def publish (s : Service) (n : Notification) : Nat × Service :=
  let (count, router) := s.router.publish n
  (count, { s with router })

/-- Takes the next notification from a stream's feed and handles it. -/
def dispatch (s : Service) (stream : String) : Service :=
  match s.router.take? stream with
  | some (n, router) => { s with router }.handle stream n
  | none => s

/-- How many notifications wait in feeds. -/
def waiting (s : Service) : Nat := (s.router.feeds.flatMap (·.queue)).length

/-- Takes from the first feed with something in it, up to `count` times. -/
def dispatchUpTo : Nat → Service → Service
  | 0, s => s
  | count + 1, s =>
    match s.router.feeds.find? (!·.queue.isEmpty) with
    | some f => dispatchUpTo count (s.dispatch f.name)
    | none => s

/-- Handles all that waits in feeds. -/
def settle (s : Service) : Service := s.dispatchUpTo s.waiting

/-- The feeds end; what is published afterwards goes nowhere. -/
def closeFeeds (s : Service) : Service := { s with router := .empty }

/-! ## State changes -/

/-- Delivers a state change; the last one of a subscription closes its listener (`deliver_state_change`). -/
def deliver (s : Service) (change : StateChange) (encoding : Encoding) : Bool × Service :=
  if s.dispatcher.attached.contains change.id then
    let (accepted, s) :=
      match Message.encode change.id encoding s.now change.toNode s.schema with
      | .ok m => s.give change.id m
      | .error _ => (false, s)
    (accepted, if change.isTerminal then { s with dispatcher := s.dispatcher.forget change.id } else s)
  else (false, s)

/-- Tells a state change, unless the dispatcher was stopped (`state_change`). -/
def tell (s : Service) (change : StateChange) (encoding : Encoding) : Except DispatcherFault Bool × Service :=
  let s := { s with journal := s.journal ++ [change] }
  if s.dispatcher.running then
    let (accepted, s) := s.deliver change encoding
    (.ok accepted, s)
  else (.error .stopped, s)

/-- Tells a state change of a subscription, whether or not anyone receives it (`emit`). -/
def emit (s : Service) (sub : Subscription) (change : StateChange) : Service := (s.tell change sub.encoding).2

/-! ## Listeners -/

/-- Delivers what a subscription asked to be replayed, once (`replay`). -/
def replay (s : Service) (id : SubscriptionId) : Service :=
  match s.registry.lookup id with
  | none => s
  | some sub =>
    match sub.replayStartTime with
    | none => s
    | some start =>
      if s.dispatcher.replayed.contains id then s
      else
        let s := { s with dispatcher := { s.dispatcher with replayed := s.dispatcher.replayed.insert id () } }
        let events := s.streams.replay sub.stream start sub.stopTime
        let s := events.foldl (fun s n => s.offer id sub.stream n) s
        (s.deliver (.replayCompleted id) sub.encoding).2

/-- Opens a listener and attaches it to a subscription (`handle_attach`). -/
def attach (s : Service) (id : SubscriptionId) (capacity : Nat) (replace : Bool) :
    ListenerId × Except DispatcherFault AttachOutcome × Service :=
  let (l, d) := s.dispatcher.openListener capacity
  if d.running then
    let (outcome, d) := d.attach id l replace
    let s := { s with dispatcher := d }
    (l, .ok outcome, if outcome = .occupied then s else s.replay id)
  else (l, .error .stopped, { s with dispatcher := d.closeSender l })

/-- Lets go of a subscription's listener; tells whether there was one (`handle_detach`). -/
def detach (s : Service) (id : SubscriptionId) : Except DispatcherFault Bool × Service :=
  if s.dispatcher.running then
    (.ok (s.dispatcher.attached.contains id), { s with dispatcher := s.dispatcher.forget id })
  else (.error .stopped, s)

/-- Attaches a listener for a receiver; one that is there keeps its place (`attach_listener`). -/
def listen (s : Service) (id : SubscriptionId) (capacity : Nat) : Except SubscriptionError ListenerId × Service :=
  match s.registry.lookup id with
  | none => (.error (.unknownSubscription id), s)
  | some sub =>
    if sub.state.isLive then
      match s.attach id capacity false with
      | (l, .ok outcome, s) => (if outcome = .occupied then .error (.receiverAttached id) else .ok l, s)
      | (_, .error fault, s) => (.error (.internal fault.message), s)
    else (.error (.notActive id), s)

/-- Takes messages from a listener. -/
def receive (s : Service) (l : ListenerId) (max : Nat) : List Message × Service :=
  match s.dispatcher.listener? l with
  | some x => ((x.take max).1, { s with dispatcher := s.dispatcher.modifyListener l fun x => (x.take max).2 })
  | none => ([], s)

/-- The receiver of a listener goes away. -/
def hangUp (s : Service) (l : ListenerId) : Service := { s with dispatcher := s.dispatcher.closeReceiver l }

/-- How many listeners are attached, those whose receivers went away included (`listener_count`). -/
def listenerCount (s : Service) : Except DispatcherFault Nat :=
  if s.dispatcher.running then .ok s.dispatcher.attached.size else .error .stopped

/-- Stops the dispatcher; feeds and listeners end (`shutdown`). -/
def stop (s : Service) : Except DispatcherFault Service :=
  if s.dispatcher.running then
    .ok { s with
      dispatcher := s.dispatcher.stop
      router := ⟨s.router.feeds.map fun f => { f with isOpen := false, queue := [] }⟩ }
  else .error .stopped

end Service

end YangSubscriptions
