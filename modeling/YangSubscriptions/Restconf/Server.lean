import YangSubscriptions.Config.Server
import YangSubscriptions.Restconf.Resource
import YangSubscriptions.Service.Filters

/-!
# The RESTCONF server

Requests over connections. Each connection is a session; once it has invoked an operation it is
tracked, and its subscriptions end when it closes. A receiver reads a subscription as an event
stream, which ends with the subscription or with the server.
-/

namespace YangSubscriptions

/-- A request as it comes in, with the headers that matter. -/
structure HttpRequest where
  method : String
  path : String
  contentType : Option String
  accept : Option String
  body : String
  deriving Repr, Inhabited

/-- A response that is complete. -/
structure HttpResponse where
  status : Nat
  mediaType : Option String
  body : String
  deriving DecidableEq, Repr, Inhabited

/-- A response as a whole, or one whose body is an event stream. -/
inductive Answer where
  | response (r : HttpResponse)
  | events (listener : ListenerId)
  deriving Repr

def eventStreamType : String := "text/event-stream"

namespace HttpRequest

/-- The value of a header; one with characters that are not plain text is ignored. -/
def readable (header : Option String) : Option String :=
  header.filter fun t => t.toList.all fun c => c.toNat < 127

/-- The encoding of the body (`request_encoding`). -/
def bodyEncoding (r : HttpRequest) : Encoding :=
  if (readable r.contentType).any fun t => Text.contains t "xml" then .xml else .json

/-- The encoding that the client accepts (`response_encoding`). -/
def acceptedEncoding (r : HttpRequest) (fallback : Encoding) : Encoding :=
  match readable r.accept with
  | some t => if Text.contains t "xml" then .xml else if Text.contains t "json" then .json else fallback
  | none => fallback

end HttpRequest

namespace HttpResponse

def bare (status : Nat) : HttpResponse := ⟨status, none, ""⟩

/-- A body in an encoding (`payload`). -/
def payload (status : Nat) (encoding : Encoding) (body : String) : HttpResponse :=
  ⟨status, some encoding.mediaType, body⟩

/-- The status of an error. Where a resource is read, one that is not there is not found. -/
def statusOf (e : SubscriptionError) (reading : Bool) : Nat :=
  match e.tag with
  | .invalidValue | .missingElement =>
    match e with
    | .unknownSubscription _ | .unknownFilter _ => if reading then 404 else 400
    | _ => 400
  | .operationFailed => 500
  | .operationNotSupported => 501
  | .inUse => 409

/-- The response that reports an error (`error_response`). -/
def ofError (e : SubscriptionError) (encoding : Encoding) (reading : Bool) : HttpResponse :=
  payload (statusOf e reading) encoding ((ErrorReply.ofError e).encode encoding)

/-- The response about a path that names no data (`unknown_resource`). -/
def unknownResource (cause : Invalid) (encoding : Encoding) : HttpResponse :=
  payload 404 encoding ((ErrorReply.ofError (.invalid cause)).encode encoding)

/-- The response about a path with a part that cannot be read. -/
def invalidPath (cause : String) : HttpResponse :=
  ⟨400, some "text/plain; charset=utf-8", s!"Invalid URL: {cause}"⟩

/-- The response that shows data (`node_response`). -/
def ofNode (s : Schema) (n : Node) : Encoding → HttpResponse
  | .json => payload 200 .json n.toJson.render
  | .xml =>
    match n.toXml s with
    | .ok text => payload 200 .xml text
    | .error e => ofError (.internal e.message) .xml true

end HttpResponse

/-- The text of a message in an event stream: its lines, and a blank one. -/
def Message.frame (m : Message) : List Char :=
  (Text.pieces '\n' m.payload.toList).flatMap (fun line => "data: ".toList ++ line ++ ['\n']) ++ ['\n']

/-- A service with its connections; `tracked` are the sessions that invoked an operation (`SessionTracker`). -/
structure Server where
  service : Service
  root : String
  listenerBuffer : Nat
  connections : Table Nat SessionId
  tracked : Table SessionId Unit
  nextSession : SessionId
  closing : Bool

namespace Server

/-- A server by its configuration, before anyone connects. -/
def start (now : Instant) (c : ServerConfig) : Server where
  service := .start now c.schema c.streams
  root := Text.trimSlashes c.http.root
  listenerBuffer := c.dispatcher.listenerBuffer
  connections := .empty
  tracked := .empty
  nextSession := 1
  closing := false

/-- The session of a connection, which is named by the port of the client. -/
def sessionOf (id : SessionId) (port : Nat) : Session :=
  ⟨id, s!"HTTP {(SocketAddress.loopback port).render}", none⟩

/-- The session of the connection from a port, opened if there is none. -/
def connect (s : Server) (port : Nat) : Session × Server :=
  match s.connections.get? port with
  | some id => (sessionOf id port, s)
  | none =>
    (sessionOf s.nextSession port,
      { s with connections := s.connections.insert port s.nextSession, nextSession := s.nextSession + 1 })

/-! ## Handlers -/

/-- The encoding that a request is answered in. -/
def invokeEncoding (r : HttpRequest) : Encoding := r.acceptedEncoding r.bodyEncoding

/-- The request that the path and the body stand for. -/
def readRequest (s : Service) (name : String) (r : HttpRequest) : Except SubscriptionError Request := do
  let op ← Operation.parse name
  (Request.parse s.schema op r.bodyEncoding r.body).mapError .invalid

/-- Carries out an operation (`invoke_operation`). -/
def invoke (s : Service) (session : Session) (name : String) (r : HttpRequest) : HttpResponse × Service :=
  let encoding := invokeEncoding r
  match readRequest s name r with
  | .error e => (.ofError e encoding false, s)
  | .ok request =>
    let (result, s) := s.answer session request
    match result with
    | .ok (some reply) => (.payload 200 encoding (reply.encode encoding), s)
    | .ok none => (.bare 204, s)
    | .error e => (.ofError e encoding false, s)

/-- Shows data (`read_data`). -/
def read (s : Service) (path : String) (r : HttpRequest) : HttpResponse :=
  let encoding := r.acceptedEncoding .json
  match DataResource.ofPath path with
  | .error cause => .unknownResource cause encoding
  | .ok .streams => .ofNode s.schema s.streams.toNode encoding
  | .ok (.receivers id) =>
    match s.registry.receivers id with
    | .ok n => .ofNode s.schema n encoding
    | .error e => .ofError e encoding true
  | .ok (.filter name) => .ofError (.notSupported s!"reading stream filter {name}") encoding true

/-- The filter entry in a body that is put to the resource of that name. -/
def readEntry (s : Service) (name : String) (r : HttpRequest) : Except Invalid FilterEntry := do
  match ← FilterEntry.ofBody s.schema (← RequestBody.parse r.bodyEncoding r.body) with
  | none => .error .noFilter
  | some entry => if entry.name = name then .ok entry else .error (.filterNameDiffers entry.name name)

/-- Stores the filter of a body under the name in the path (`put_data`). -/
def put (s : Service) (path : String) (r : HttpRequest) : HttpResponse × Service :=
  let encoding := invokeEncoding r
  match DataResource.ofPath path with
  | .error cause => (.unknownResource cause encoding, s)
  | .ok (.filter name) =>
    match readEntry s name r with
    | .error cause => (.ofError (.invalid cause) encoding false, s)
    | .ok entry =>
      let (result, s) := s.putFilter entry.name entry.filter
      match result with
      | .ok isNew => (.bare (if isNew then 201 else 204), s)
      | .error e => (.ofError e encoding false, s)
  | .ok _ => (.ofError (.notSupported s!"writing {path}") encoding false, s)

/-- Removes the filter that the path names (`delete_data`). -/
def delete (s : Service) (path : String) (r : HttpRequest) : HttpResponse × Service :=
  let encoding := r.acceptedEncoding .json
  match DataResource.ofPath path with
  | .error cause => (.unknownResource cause encoding, s)
  | .ok (.filter name) =>
    let (result, s) := s.removeFilter name
    match result with
    | .ok () => (.bare 204, s)
    | .error e => (.ofError e encoding true, s)
  | .ok _ => (.ofError (.notSupported s!"deleting {path}") encoding false, s)

/-! ## Requests -/

/-- The answer of a handler, and the server with the service it leaves. -/
def withService (s : Server) (result : HttpResponse × Service) : Answer × Server :=
  (.response result.1, { s with service := result.2 })

/-- Opens the event stream of a subscription (`attach_stream`). -/
def openEvents (s : Server) (id : SubscriptionId) : Answer × Server :=
  match s.service.listen id s.listenerBuffer with
  | (.ok l, service) => (.events l, { s with service })
  | (.error e, service) => (.response (.ofError e .json true), { s with service })

/-- Answers a request whose route is known, and for which the method is `GET` if it was `HEAD`. -/
def route (s : Server) (session : Session) (method : String) (r : HttpRequest) : Route → Answer × Server
  | .operation raw =>
    if method ≠ "POST" then (.response (.bare 405), s)
    else
      match percentDecode? raw with
      | none => (.response (.invalidPath "Invalid UTF-8 in `operation`"), s)
      | some name =>
        let s := { s with tracked := s.tracked.insert session.id () }
        s.withService (invoke s.service session name r)
  | .stream raw =>
    if method ≠ "GET" then (.response (.bare 405), s)
    else
      match percentDecode? raw with
      | none => (.response (.invalidPath "Invalid UTF-8 in `id`"), s)
      | some text =>
        match SubscriptionId.parse? text.toList with
        | some id => s.openEvents id
        | none => (.response (.invalidPath s!"Cannot parse `{Text.quoted text}` to a `u32`"), s)
  | .data raw =>
    if method ≠ "GET" ∧ method ≠ "PUT" ∧ method ≠ "DELETE" then (.response (.bare 405), s)
    else
      match percentDecode? raw with
      | none => (.response (.invalidPath "Invalid UTF-8 in `path`"), s)
      | some path =>
        if method = "GET" then (.response (read s.service path r), s)
        else if method = "PUT" then s.withService (put s.service path r)
        else s.withService (delete s.service path r)

/-- The path without a query. -/
def pathOnly (target : String) : String :=
  String.ofList (target.toList.takeWhile fun c => c ≠ '?' && c ≠ '#')

/-- A response without its body; an event stream ends at once. -/
def withoutBody : Answer × Server → Answer × Server
  | (.response r, s) => (.response { r with body := "" }, s)
  | (.events l, s) => (.events l, { s with service := s.service.hangUp l })

/-- Answers a request on the connection from a port. -/
def request (s : Server) (port : Nat) (r : HttpRequest) : Answer × Server :=
  let (session, s) := s.connect port
  match Route.ofPath? s.root (pathOnly r.path) with
  | none => (.response (.bare 404), s)
  | some there =>
    if r.method = "HEAD" then withoutBody (s.route session "GET" r there) else s.route session r.method r there

/-- The connection from a port closes; tells whether there was one. Only a tracked session is closed with it. -/
def disconnect (s : Server) (port : Nat) : Bool × Server :=
  match s.connections.get? port with
  | none => (false, s)
  | some id =>
    let s := { s with connections := s.connections.erase port }
    if s.tracked.contains id then
      (true, { s with tracked := s.tracked.erase id, service := (s.service.closeSession id).2 })
    else (true, s)

/-- What an event stream holds now, and whether it has ended. One that the client does not read
any more holds nothing. -/
def frames (s : Server) (l : ListenerId) : String × Bool × Server :=
  if s.closing then ("", true, s)
  else
    match s.service.dispatcher.listener? l with
    | none => ("", true, s)
    | some x =>
      if !x.receiverOpen then ("", true, s) else
      let (messages, service) := s.service.receive l x.pending.length
      (String.ofList (messages.flatMap Message.frame), !x.isOpen, { s with service })

/-- The client leaves an event stream. -/
def leave (s : Server) (l : ListenerId) : Server := { s with service := s.service.hangUp l }

/-- Ends all event streams and stops the dispatcher (`shutdown`). -/
def shutdown (s : Server) : Except DispatcherFault Server := do
  .ok { s with service := ← s.service.stop, closing := true }

end Server

end YangSubscriptions
