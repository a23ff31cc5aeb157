import YangSubscriptions.Rpc.Request
import YangSubscriptions.Service.Delivery

/-!
# The lifecycle of subscriptions

Establishing, modifying and ending subscriptions. A request is checked before anything changes; a
change of the registry is then committed to the datastore, and taken back if the commit fails; only
after that do deadlines change and receivers learn of it. A session that closes takes its
subscriptions along without a word, and a stop-time that is reached completes its subscription.
-/

namespace YangSubscriptions

namespace Service

/-- An active subscription again, after it was suspended (`resume`). -/
def resume (s : Service) (sub : Subscription) : Service :=
  match s.registry.moveTo sub.id .active with
  | .ok (_, registry) => { s with registry }.emit sub (.resumed sub.id)
  | .error _ => s

/-! ## Establishing -/

/-- Checks the times of an establish request; tells where replay starts if that is later than asked. -/
def checkTimes (s : Service) (stream : String) (r : EstablishRequest) :
    Except SubscriptionError (Option Instant) :=
  match r.replayStartTime with
  | some start =>
    if !s.streams.supportsReplay stream then .error (.invalid (.replayUnsupported stream))
    else if s.now < start then .error (.invalid .replayInFuture)
    else if r.stopTime.any (·.lt start) then .error (.invalid .replayAfterStop)
    else .ok ((s.streams.oldest? stream).filter start.lt)
  | none => if r.stopTime.any (·.le s.now) then .error (.invalid .stopInPast) else .ok none

/-- What is to be created for an establish request, and where replay starts. -/
def checkEstablish (s : Service) (session : Session) (r : EstablishRequest) :
    Except SubscriptionError (SubscriptionRequest × Option Instant) :=
  match r.stream with
  | none => .error (.invalid .noStream)
  | some stream => do
    if !s.streams.contains stream then .error (.unknownStream stream)
    let resolved ← s.streams.resolve s.schema r.filter
    let revision ← s.checkTimes stream r
    .ok ({ stream, resolved, session
           filter := r.filter
           encoding := r.encoding.getD .json
           stopTime := r.stopTime
           replayStartTime := r.replayStartTime }, revision)

/-- Registers a subscription, records it and tells its receiver (`establish`). A commit that fails takes the record
back, but not the id. -/
def establish (s : Service) (session : Session) (r : EstablishRequest) :
    Except SubscriptionError EstablishReply × Service :=
  match s.checkEstablish session r with
  | .error e => (.error e, s)
  | .ok (request, revision) =>
    match s.registry.launch s.streams request with
    | .error e => (.error e, s)
    | .ok (sub, registry) =>
      match s.datastore.commit [.put (.subscription sub.id) sub.toJson] with
      | .error fault => (.error (.operationFailed fault.message), { s with registry := registry.leave sub })
      | .ok datastore =>
        let deadlines := match sub.stopTime with
          | some t => s.deadlines.insert sub.id t
          | none => s.deadlines
        (.ok ⟨sub.id, revision⟩, { s with registry, datastore, deadlines }.emit sub (.started sub.terms))

/-! ## Modifying -/

/-- The subscription that a request asks to modify, and its new filter resolved. -/
def checkModify (s : Service) (session : Session) (r : ModifyRequest) :
    Except SubscriptionError (Subscription × Option ResolvedFilter) :=
  match s.registry.lookup r.id with
  | none => .error (.unknownSubscription r.id)
  | some current => do
    if !current.session.same session then .error (.wrongSession r.id)
    if !current.state.isLive then .error (.notActive r.id)
    let resolved ← match r.filter with
      | some f => (s.streams.resolve s.schema (some f)).map some
      | none => .ok none
    if r.stopTime.any (·.le s.now) then .error (.invalid .stopInPast)
    .ok (current, resolved)

end Service

/-- Only what the request gives changes (`modify_record`). -/
def ModifyRequest.change (r : ModifyRequest) (resolved : Option ResolvedFilter) (s : Subscription) : Subscription :=
  { s with
    filter := r.filter.or s.filter
    resolved := resolved.getD s.resolved
    stopTime := r.stopTime.or s.stopTime
    encoding := r.encoding.getD s.encoding }

/-- Takes back what a request changed (`restore_record`). -/
def Subscription.restore (previous s : Subscription) : Subscription :=
  { s with
    filter := previous.filter
    resolved := previous.resolved
    stopTime := previous.stopTime
    encoding := previous.encoding }

namespace Service

/-- Changes the terms of a subscription of the session (`modify`). A commit that fails takes the change back. -/
def modify (s : Service) (session : Session) (r : ModifyRequest) : Except SubscriptionError Unit × Service :=
  match s.checkModify session r with
  | .error e => (.error e, s)
  | .ok (current, resolved) =>
    let registry := s.registry.update r.id (r.change resolved)
    let updated := r.change resolved current
    match s.datastore.commit [.put (.subscription r.id) updated.toJson] with
    | .error fault =>
      (.error (.operationFailed fault.message), { s with registry := registry.update r.id current.restore })
    | .ok datastore =>
      let deadlines := match r.stopTime with
        | some t => s.deadlines.insert r.id t
        | none => s.deadlines
      let s := { s with registry, datastore, deadlines }.emit updated (.modified updated.terms)
      -- a valid filter ends a suspension for want of one
      (.ok (), if r.filter.isSome && updated.suspension = some .filterUnavailable then s.resume updated else s)

/-! ## Ending -/

/-- Ends a subscription for that reason (`terminate`). A commit that fails puts the record back. -/
def terminate (s : Service) (sub : Subscription) (reason : TerminationReason) :
    Except SubscriptionError Unit × Service :=
  if sub.state.isLive then
    match s.registry.retire sub.id with
    | .error (.illegalTransition _ _ _) => (.error (.notActive sub.id), s)
    | .error e => (.error e, s)
    | .ok (removed, previous, registry) =>
      match s.datastore.commit [.delete (.subscription sub.id)] with
      | .error fault =>
        (.error (.operationFailed fault.message), { s with registry := registry.reinstate removed previous })
      | .ok datastore =>
        let s := { s with registry, datastore, deadlines := s.deadlines.erase sub.id }
        (.ok (), s.emit removed (.terminated sub.id reason))
  else (.error (.notActive sub.id), s)

/-- Ends a subscription of the session itself (`delete`). -/
def delete (s : Service) (session : Session) (id : SubscriptionId) : Except SubscriptionError Unit × Service :=
  match s.registry.lookup id with
  | none => (.error (.unknownSubscription id), s)
  | some sub =>
    if sub.session.same session then s.terminate sub .noSuchSubscription else (.error (.wrongSession id), s)

/-- Ends a subscription of any session (`kill`). -/
def kill (s : Service) (id : SubscriptionId) : Except SubscriptionError Unit × Service :=
  match s.registry.lookup id with
  | none => (.error (.unknownSubscription id), s)
  | some sub => s.terminate sub .killed

/-- Carries out a request; only an establish request has an answer (`handle`). -/
def answer (s : Service) (session : Session) : Request →
    Except SubscriptionError (Option EstablishReply) × Service
  | .establish r => let (result, s) := s.establish session r; (result.map some, s)
  | .modify r => let (result, s) := s.modify session r; (result.map fun _ => none, s)
  | .delete id => let (result, s) := s.delete session id; (result.map fun _ => none, s)
  | .kill id => let (result, s) := s.kill id; (result.map fun _ => none, s)

/-- Removes a subscription, with its deadline and its listener, and tells nobody. -/
def drop (s : Service) (id : SubscriptionId) : Service :=
  match s.registry.delete id with
  | .ok (_, registry) => ({ s with registry, deadlines := s.deadlines.erase id }.detach id).2
  | .error _ => s

/-- Removes the subscriptions of a session; tells which (`session_closed`). -/
def closeSession (s : Service) (session : SessionId) : List SubscriptionId × Service :=
  let ids := s.registry.ofSession session
  let removed := ids.filter fun id => (s.registry.lookup id).isSome
  let s := ids.foldl drop s
  (removed, { s with datastore := s.datastore.commitOrKeep (removed.map fun id => .delete (.subscription id)) })

/-! ## Stop-times -/

/-- Ends a subscription that reached its stop-time (`complete`). -/
def complete (s : Service) (id : SubscriptionId) : Service :=
  let s := { s with deadlines := s.deadlines.erase id }
  match s.registry.retire id with
  | .error _ => s
  | .ok (removed, _, registry) =>
    { s with
      registry
      datastore := s.datastore.commitOrKeep [.delete (.subscription id)] }.emit removed (.completed id)

/-- The deadlines up to a time, the earliest first. -/
def due (s : Service) (t : Instant) : List (SubscriptionId × Instant) :=
  (s.deadlines.entries.filter fun e => e.2.le t).mergeSort fun a b => a.2.le b.2

/-- Time passes; what is due meanwhile is completed when it is due. -/
def pass (s : Service) (seconds : Nat) : Service :=
  let t := s.now.addSeconds seconds
  let s := (s.due t).foldl (fun s (id, deadline) =>
    { s with now := if s.now < deadline then deadline else s.now }.complete id) s
  { s with now := t }

end Service

end YangSubscriptions
