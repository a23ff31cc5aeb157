import YangSubscriptions.Proofs.Service.Owners
import YangSubscriptions.Restconf.Server

/-!
# Connections that close

A server tears the session of a connection down some time after the connection is gone: in between, requests on
other connections and everything else go on. Every session that invokes an operation is tracked before its request
is carried out, so that the subscriptions of a session are registered exactly as long as it is tracked and they are
not ended (`Tidy`). Nothing of a session that was torn down is left behind (`closed_connections_leave_nothing`).
-/

namespace YangSubscriptions

namespace Action

/-- Can a request for a resource, which invokes no operation, come to it? -/
def isResource : Action → Bool
  | putFilter _ _ | removeFilter _ | listen _ _ | hangUp _ => true
  | _ => false

/-- Does it go on in a server apart from operations and from connections that close? -/
def isOrdinary : Action → Bool
  | publish _ | dispatch _ | expire _ | setSchema _ _ | revalidate | receive _ _ | stop | closeFeeds | wait _ => true
  | a => a.isResource

end Action

/-- What can happen to a server: a request on the connection from a port, its close, the end of a session whose
connection is gone, and whatever else the service does. -/
inductive Happening where
  | request (port : Nat) (r : HttpRequest)
  | close (port : Nat)
  | tearDown (session : SessionId)
  | proceed (a : Action) (ordinary : a.isOrdinary = true)

namespace Server

/-! ## Connections and sessions -/

/-- Is the connection of the session there? -/
def isOpen (s : Server) (session : SessionId) : Bool :=
  s.connections.keys.any fun port => s.connections.get? port = some session

theorem isOpen_iff {s : Server} {session : SessionId} :
    s.isOpen session = true ↔ ∃ port, s.connections.get? port = some session := by
  simp only [isOpen, List.any_eq_true, decide_eq_true_eq]
  constructor
  · rintro ⟨port, -, hport⟩
    exact ⟨port, hport⟩
  · rintro ⟨port, hport⟩
    exact ⟨port, (Table.mem_keys_iff _ _).2 (by rw [hport]; rfl), hport⟩

/-- The connection from a port is gone. Its session is not torn down yet. -/
def close (s : Server) (port : Nat) : Server := { s with connections := s.connections.erase port }

/-- Ends a session whose connection is gone: it is tracked no more, and its subscriptions are removed. -/
def tearDown (s : Server) (session : SessionId) : Server :=
  if s.tracked.contains session && !s.isOpen session then
    { s with tracked := s.tracked.erase session, service := (s.service.closeSession session).2 }
  else s

/-- The operation that a request along a route invokes. -/
def invoked? (s : Service) (method : String) (r : HttpRequest) : Route → Option Request
  | .operation raw =>
    if method = "POST" then (percentDecode? raw).bind fun name => (readRequest s name r).toOption else none
  | _ => none

/-- The operation that a request invokes, if it does. -/
def called? (s : Server) (r : HttpRequest) : Option Request :=
  (Route.ofPath? s.root (pathOnly r.path)).bind (invoked? s.service r.method r)

def step (s : Server) : Happening → Server
  | .request port r => (s.request port r).2
  | .close port => s.close port
  | .tearDown session => s.tearDown session
  | .proceed a _ => { s with service := s.service.step a }

def run (s : Server) (xs : List Happening) : Server := xs.foldl step s

/-- What a happening tells of a subscription. -/
def tells (s : Server) : Happening → Option Entry
  | .request port r => (s.called? r).bind fun request => s.service.tells (.request (s.connect port).1 request)
  | .proceed a _ => s.service.tells a
  | .close _ | .tearDown _ => none

/-- What a run tells of subscriptions, the last of it first. -/
def log : Server → List Happening → List Entry
  | _, [] => []
  | s, x :: xs => log (s.step x) xs ++ (s.tells x).toList

/-- A connection that closes and whose session is torn down at once. -/
theorem disconnect_eq {s : Server} {port : Nat} {session : SessionId}
    (hport : s.connections.get? port = some session)
    (hsingle : ∀ p, s.connections.get? p = some session → p = port) :
    s.disconnect port = (true, (s.close port).tearDown session) := by
  have hgone : (s.close port).isOpen session = false := by
    rw [Bool.eq_false_iff, ne_eq, isOpen_iff]
    rintro ⟨p, hp⟩
    obtain ⟨hne, hp⟩ := Table.get?_of_erase hp
    exact hne (hsingle p hp).symm
  have htracked : (s.close port).tracked = s.tracked := rfl
  unfold disconnect tearDown
  rw [hport, hgone, htracked]
  simp only [Bool.not_false, Bool.and_true]
  split <;> rfl

/-! ## What a request comes to -/

/-- What a request changes in the service: it carries an operation out, or it is about resources. -/
inductive Effect (session : Session) (s : Service) : Option Request → Service → Prop where
  | operation (request : Request) : Effect session s (some request) (s.step (.request session request))
  | resource (as : List Action) (h : ∀ a ∈ as, a.isResource = true) : Effect session s none (s.run as)

/-- How a server comes out of a request of a session. -/
structure Served (session : Session) (request? : Option Request) (s t : Server) : Prop where
  connections : t.connections = s.connections
  nextSession : t.nextSession = s.nextSession
  /-- Whoever invokes an operation is tracked. -/
  tracked : (t.tracked = s.tracked ∧ request? = none) ∨ t.tracked = s.tracked.insert session.id ()
  service : Effect session s.service request? t.service

theorem served_same (session : Session) (s : Server) : Served session none s s :=
  ⟨rfl, rfl, .inl ⟨rfl, rfl⟩, .resource [] (List.forall_mem_nil _)⟩

/-- A request about a resource that comes to one action. -/
theorem served_resource (session : Session) (s : Server) {a : Action} (ha : a.isResource = true) :
    Served session none s { s with service := s.service.step a } :=
  ⟨rfl, rfl, .inl ⟨rfl, rfl⟩, .resource [a] fun _ hb => List.mem_singleton.1 hb ▸ ha⟩

theorem served_put (session : Session) (s : Server) (path : String) (r : HttpRequest) :
    Served session none s (s.withService (put s.service path r)).2 := by
  unfold put
  split
  · exact served_same session s
  · split
    · exact served_same session s
    · rename_i entry _
      have hput : Served session none s { s with service := (s.service.putFilter entry.name entry.filter).2 } :=
        served_resource session s (a := .putFilter entry.name entry.filter) rfl
      revert hput
      cases s.service.putFilter entry.name entry.filter with
      | mk result t => cases result <;> exact fun h => h
  · exact served_same session s

theorem served_delete (session : Session) (s : Server) (path : String) (r : HttpRequest) :
    Served session none s (s.withService (delete s.service path r)).2 := by
  unfold delete
  split
  · exact served_same session s
  · rename_i name _
    have hdelete : Served session none s { s with service := (s.service.removeFilter name).2 } :=
      served_resource session s (a := .removeFilter name) rfl
    revert hdelete
    cases s.service.removeFilter name with
    | mk result t => cases result <;> exact fun h => h
  · exact served_same session s

theorem served_events (session : Session) (s : Server) (id : SubscriptionId) :
    Served session none s (s.openEvents id).2 := by
  have hlisten : Served session none s { s with service := (s.service.listen id s.listenerBuffer).2 } :=
    served_resource session s (a := .listen id s.listenerBuffer) rfl
  unfold openEvents
  revert hlisten
  cases s.service.listen id s.listenerBuffer with
  | mk result t => cases result <;> exact fun h => h

/-- An operation is carried out once the session is tracked. -/
theorem served_invoke (session : Session) (s : Server) (name : String) (r : HttpRequest) :
    Served session (readRequest s.service name r).toOption s
      ({ s with tracked := s.tracked.insert session.id () }.withService (invoke s.service session name r)).2 := by
  unfold invoke
  cases readRequest s.service name r with
  | error e => exact ⟨rfl, rfl, .inr rfl, .resource [] (List.forall_mem_nil _)⟩
  | ok request =>
    have hanswer : Served session (some request) s
        { s with tracked := s.tracked.insert session.id (), service := (s.service.answer session request).2 } :=
      ⟨rfl, rfl, .inr rfl, .operation request⟩
    revert hanswer
    simp only
    cases s.service.answer session request with
    | mk result t =>
      cases result with
      | error e => exact fun h => h
      | ok reply? => cases reply? <;> exact fun h => h

theorem served_route (session : Session) (s : Server) (method : String) (r : HttpRequest) (there : Route) :
    Served session (invoked? s.service method r there) s (s.route session method r there).2 := by
  cases there with
  | operation raw =>
    unfold route invoked?
    simp only
    by_cases hmethod : method = "POST"
    · simp only [hmethod, ne_eq, not_true_eq_false, if_false, if_true]
      cases percentDecode? raw with
      | none => exact served_same session s
      | some name => exact served_invoke session s name r
    · simp only [hmethod, ne_eq, not_false_eq_true, if_true, if_false]
      exact served_same session s
  | stream raw =>
    show Served session none s _
    unfold route
    simp only
    split
    · exact served_same session s
    · split
      · exact served_same session s
      · split
        · rename_i id _
          exact served_events session s id
        · exact served_same session s
  | data raw =>
    show Served session none s _
    unfold route
    simp only
    split
    · exact served_same session s
    · split
      · exact served_same session s
      · rename_i path _
        split
        · exact served_same session s
        · split
          · exact served_put session s path r
          · exact served_delete session s path r

/-- A response without its body may let go of a listener. -/
theorem Served.withoutBody {session : Session} {s : Server} {result : Answer × Server}
    (h : Served session none s result.2) : Served session none s (withoutBody result).2 := by
  obtain ⟨answer, t⟩ := result
  cases answer with
  | response r => exact h
  | events l =>
    refine ⟨h.connections, h.nextSession, h.tracked, ?_⟩
    have hservice := h.service
    change Effect session s.service none t.service at hservice
    show Effect session s.service none (t.service.hangUp l)
    generalize t.service = u at hservice
    cases hservice with
    | resource as has =>
      have hmore : (s.service.run as).hangUp l = s.service.run (as ++ [.hangUp l]) := by
        rw [Service.run_append]
        rfl
      rw [hmore]
      exact .resource _ (List.forall_mem_append.2 ⟨has, List.forall_mem_singleton.2 rfl⟩)

theorem service_connect (s : Server) (port : Nat) : (s.connect port).2.service = s.service := by
  unfold connect
  split <;> rfl

theorem served_request (s : Server) (port : Nat) (r : HttpRequest) :
    Served (s.connect port).1 (s.called? r) (s.connect port).2 (s.request port r).2 := by
  have hroot : (s.connect port).2.root = s.root := by
    unfold connect
    split <;> rfl
  rw [called?, ← service_connect s port, ← hroot]
  unfold request
  generalize s.connect port = connected
  obtain ⟨session, t⟩ := connected
  simp only
  cases Route.ofPath? t.root (pathOnly r.path) with
  | none => exact served_same session t
  | some there =>
    show Served session (invoked? t.service r.method r there) t _
    by_cases hhead : r.method = "HEAD"
    · -- neither `HEAD` nor the `GET` that it is answered like invokes an operation
      have hnone : ∀ method, method ≠ "POST" → invoked? t.service method r there = none := by
        intro method hmethod
        cases there with
        | operation raw => exact if_neg hmethod
        | _ => rfl
      have hget := served_route session t "GET" r there
      rw [hnone "GET" (by decide)] at hget
      rw [hhead, hnone "HEAD" (by decide)]
      exact hget.withoutBody
    · simp only [hhead, if_false]
      exact served_route session t r.method r there

/-! ## The invariant -/

/-- What is registered belongs to the sessions that are tracked, and a session that subscribed is tracked as long
as it is connected. -/
structure Tidy (log : List Entry) (s : Server) : Prop where
  booked : Service.Booked log s.service
  single : ∀ p q session, s.connections.get? p = some session → s.connections.get? q = some session → p = q
  opened : ∀ port session, s.connections.get? port = some session → session < s.nextSession
  watched : ∀ session, s.tracked.contains session = true → session < s.nextSession
  known : ∀ id session, .established id session ∈ log →
    session < s.nextSession ∧ (s.isOpen session = true → s.tracked.contains session = true)
  owner : ∀ id, s.service.owner? id = (Entry.owners log id).filter s.tracked.contains

theorem tidy_start (now : Instant) (c : ServerConfig) : Tidy [] (start now c) where
  booked := Service.booked_start now c.schema c.streams
  single := nofun
  opened := nofun
  watched := nofun
  known := nofun
  owner _ := rfl

namespace Tidy

variable {log : List Entry} {s t : Server}

/-- The invariant is about the service, the connections and the sessions. -/
theorem congr (h : Tidy log s) (hservice : t.service = s.service) (hconnections : t.connections = s.connections)
    (htracked : t.tracked = s.tracked) (hnext : t.nextSession = s.nextSession) : Tidy log t := by
  obtain ⟨service, root, listenerBuffer, connections, tracked, nextSession, closing⟩ := t
  cases hservice
  cases hconnections
  cases htracked
  cases hnext
  exact ⟨h.booked, h.single, h.opened, h.watched, h.known, h.owner⟩

theorem connect (h : Tidy log s) (port : Nat) :
    Tidy log (s.connect port).2 ∧ (s.connect port).2.connections.get? port = some (s.connect port).1.id := by
  unfold Server.connect
  split
  · rename_i hport
    exact ⟨h, hport⟩
  · rename_i hport
    refine ⟨⟨h.booked, fun p q session hp hq => ?_, fun p session hp => ?_, fun session hsession => ?_,
      fun id session hid => ?_, h.owner⟩, ?_⟩
    · rcases Table.get?_of_insert hp with ⟨rfl, rfl⟩ | hp
      · rcases Table.get?_of_insert hq with ⟨rfl, -⟩ | hq
        · rfl
        · exact absurd (h.opened q _ hq) (Nat.lt_irrefl _)
      · rcases Table.get?_of_insert hq with ⟨rfl, rfl⟩ | hq
        · exact absurd (h.opened p _ hp) (Nat.lt_irrefl _)
        · exact h.single p q session hp hq
    · rcases Table.get?_of_insert hp with ⟨-, rfl⟩ | hp
      · exact Nat.lt_succ_self _
      · exact Nat.lt_succ_of_lt (h.opened p session hp)
    · exact Nat.lt_succ_of_lt (h.watched session hsession)
    · obtain ⟨hlt, hopen⟩ := h.known id session hid
      refine ⟨Nat.lt_succ_of_lt hlt, fun hthere => ?_⟩
      obtain ⟨p, hp⟩ := isOpen_iff.1 hthere
      rcases Table.get?_of_insert hp with ⟨-, rfl⟩ | hp
      · exact absurd hlt (Nat.lt_irrefl _)
      · exact hopen (isOpen_iff.2 ⟨p, hp⟩)
    · show (s.connections.insert port s.nextSession).get? port = _
      rw [Table.get?_insert, if_pos rfl]
      rfl

/-- A session that is connected owns nothing before it is tracked. -/
theorem track (h : Tidy log s) {port : Nat} {session : SessionId} (hport : s.connections.get? port = some session) :
    Tidy log { s with tracked := s.tracked.insert session () } := by
  refine ⟨h.booked, h.single, h.opened, fun session' hsession' => ?_, fun id session' hid => ?_, fun id => ?_⟩
  · rw [Table.contains_insert, Bool.or_eq_true, decide_eq_true_eq] at hsession'
    rcases hsession' with rfl | hsession'
    · exact h.opened port session hport
    · exact h.watched session' hsession'
  · obtain ⟨hlt, hopen⟩ := h.known id session' hid
    refine ⟨hlt, fun hthere => ?_⟩
    show (s.tracked.insert session ()).contains session' = true
    rw [Table.contains_insert, hopen hthere, Bool.or_true]
  · show s.service.owner? id = (Entry.owners log id).filter (s.tracked.insert session ()).contains
    rw [h.owner]
    cases howner : Entry.owners log id with
    | none => rfl
    | some session' =>
      rw [Option.filter_some, Option.filter_some, Table.contains_insert]
      by_cases hsame : session = session'
      · subst hsame
        rw [(h.known id session (Entry.mem_of_owners howner)).2 (isOpen_iff.2 ⟨port, hport⟩), Bool.or_true]
      · simp [hsame]

/-- Whatever the service does, new subscriptions go to sessions that are tracked. -/
theorem serve (h : Tidy log s) {a : Action} (ha : a.isServed = true) (hclose : ∀ session, a ≠ .closeSession session)
    (htracked : ∀ id session, s.service.tells a = some (.established id session) →
      s.tracked.contains session = true)
    (hcount : ((s.service.tells a).toList ++ log).countP Entry.starts ≤ UInt32.size) :
    Tidy ((s.service.tells a).toList ++ log) { s with service := s.service.step a } := by
  have hrefuse : ∀ refusing, a ≠ .refuse refusing := by
    rintro refusing rfl
    cases ha
  obtain ⟨n, -, horderly, -⟩ := h.booked.orderly
  have haccounts := Service.accounts_step horderly.heard.wf horderly.accepting hclose hrefuse
  refine ⟨h.booked.step ha hcount, h.single, h.opened, h.watched, fun id session hid => ?_, fun id => ?_⟩
  · rcases List.mem_append.1 hid with hnew | hid
    · have hsession := htracked id session (Option.mem_toList.1 hnew)
      exact ⟨h.watched session hsession, fun _ => hsession⟩
    · exact h.known id session hid
  · show (s.service.step a).owner? id = (Entry.owners _ id).filter s.tracked.contains
    rw [haccounts.owner, funext h.owner, Entry.owners_append]
    cases hentry : s.service.tells a with
    | none => rfl
    | some e =>
      cases e with
      | established k session =>
        show (if k = id then some session else _) = (if k = id then some session else _).filter _
        split
        · rw [Option.filter_some, if_pos (htracked k session hentry)]
        · rfl
      | ended k =>
        show (if k = id then none else _) = (if k = id then none else _).filter _
        split <;> rfl

theorem resources (h : Tidy log s) {as : List Action} (has : ∀ a ∈ as, a.isResource = true)
    (hcount : log.countP Entry.starts ≤ UInt32.size) : Tidy log { s with service := s.service.run as } := by
  induction as generalizing s with
  | nil => exact h
  | cons a as ih =>
    have ha : a.isResource = true := has a List.mem_cons_self
    have hnone : s.service.tells a = none := by cases a <;> first | rfl | cases ha
    have hserved : a.isServed = true := by cases a <;> first | rfl | cases ha
    have hclose : ∀ session, a ≠ .closeSession session := by
      rintro session rfl
      cases ha
    have hstep := h.serve hserved hclose (by rw [hnone]; nofun) (by rw [hnone]; exact hcount)
    rw [hnone] at hstep
    exact ih hstep fun b hb => has b (List.mem_cons_of_mem a hb)

theorem request (h : Tidy log s) (port : Nat) (r : HttpRequest)
    (hcount : ((s.tells (.request port r)).toList ++ log).countP Entry.starts ≤ UInt32.size) :
    Tidy ((s.tells (.request port r)).toList ++ log) (s.request port r).2 := by
  have hserved := s.served_request port r
  obtain ⟨hconnected, hport⟩ := h.connect port
  have htrack := hconnected.track hport
  change (((s.called? r).bind _).toList ++ log).countP Entry.starts ≤ UInt32.size at hcount
  show Tidy (((s.called? r).bind _).toList ++ log) _
  rw [← service_connect s port] at hcount ⊢
  generalize s.called? r = request?, s.connect port = connected, (s.request port r).2 = u at *
  obtain ⟨session, t⟩ := connected
  obtain ⟨hconnections, hnext, htracked, heffect⟩ := hserved
  generalize hv : u.service = v at heffect
  cases heffect with
  | operation request =>
    have htracked' : u.tracked = t.tracked.insert session.id () := htracked.resolve_left nofun
    refine (htrack.serve (a := .request session request) rfl nofun ?_ hcount).congr hv hconnections htracked' hnext
    intro id owner hentry
    obtain ⟨-, B, r', he, hB⟩ := Service.tells_eq_established hentry
    cases he
    show (t.tracked.insert session.id ()).contains owner = true
    rw [Table.contains_insert, decide_eq_true hB, Bool.true_or]
  | resource as has =>
    rcases htracked with ⟨htracked, -⟩ | htracked
    · exact (hconnected.resources has hcount).congr hv hconnections htracked hnext
    · exact (htrack.resources has hcount).congr hv hconnections htracked hnext

theorem close (h : Tidy log s) (port : Nat) : Tidy log (s.close port) := by
  have hget : ∀ p session, (s.connections.erase port).get? p = some session → s.connections.get? p = some session :=
    fun p session hp => (Table.get?_of_erase hp).2
  refine ⟨h.booked, fun p q session hp hq => h.single p q session (hget p session hp) (hget q session hq),
    fun p session hp => h.opened p session (hget p session hp), h.watched, fun id session hid => ?_, h.owner⟩
  obtain ⟨hlt, hopen⟩ := h.known id session hid
  refine ⟨hlt, fun hthere => ?_⟩
  obtain ⟨p, hp⟩ := isOpen_iff.1 hthere
  exact hopen (isOpen_iff.2 ⟨p, hget p session hp⟩)

theorem tearDown (h : Tidy log s) (session : SessionId) : Tidy log (s.tearDown session) := by
  unfold Server.tearDown
  split
  · rename_i hgone
    rw [Bool.and_eq_true, Bool.not_eq_true'] at hgone
    obtain ⟨n, -, horderly, -⟩ := h.booked.orderly
    refine ⟨h.booked.silent (a := .closeSession session) rfl rfl, h.single, h.opened, fun session' hsession' => ?_,
      fun id session' hid => ?_, fun id => ?_⟩
    · rw [Table.contains_erase, Bool.and_eq_true] at hsession'
      exact h.watched session' hsession'.2
    · obtain ⟨hlt, hopen⟩ := h.known id session' hid
      refine ⟨hlt, fun hthere => ?_⟩
      have hne : session ≠ session' := by
        rintro rfl
        change s.isOpen session = true at hthere
        rw [hgone.2] at hthere
        cases hthere
      show (s.tracked.erase session).contains session' = true
      rw [Table.contains_erase, hopen hthere, decide_eq_true hne]
      rfl
    · show (s.service.closeSession session).2.owner? id =
        (Entry.owners log id).filter (s.tracked.erase session).contains
      rw [Service.owner?_closeSession horderly.heard.wf horderly.exact, h.owner]
      cases Entry.owners log id with
      | none => rfl
      | some session' =>
        rw [Option.filter_some, Option.filter_some, Table.contains_erase]
        by_cases hsame : session = session'
        · subst hsame
          simp [hgone.1]
        · cases htracked : s.tracked.contains session' <;> simp [hsame, Ne.symm hsame]
  · exact h

theorem step (h : Tidy log s) (x : Happening)
    (hcount : ((s.tells x).toList ++ log).countP Entry.starts ≤ UInt32.size) :
    Tidy ((s.tells x).toList ++ log) (s.step x) := by
  cases x with
  | request port r => exact h.request port r hcount
  | close port => exact h.close port
  | tearDown session => exact h.tearDown session
  | proceed a ordinary =>
    refine h.serve ?_ ?_ ?_ hcount
    · cases a <;> first | rfl | cases ordinary
    · rintro session rfl
      cases ordinary
    · intro id session hentry
      obtain ⟨-, B, r, rfl, -⟩ := Service.tells_eq_established hentry
      cases ordinary

theorem run (h : Tidy log s) (xs : List Happening)
    (hcount : (s.log xs ++ log).countP Entry.starts ≤ UInt32.size) : Tidy (s.log xs ++ log) (s.run xs) := by
  induction xs generalizing s log with
  | nil => exact h
  | cons x xs ih =>
    have hsplit : s.log (x :: xs) ++ log = (s.step x).log xs ++ ((s.tells x).toList ++ log) := List.append_assoc ..
    rw [hsplit] at hcount ⊢
    refine ih (h.step x ?_) hcount
    rw [List.countP_append] at hcount
    omega

end Tidy

/-! ## Sessions that were torn down -/

/-- The session is of a connection that is gone, and it is not tracked any more. -/
structure Closed (session : SessionId) (s : Server) : Prop where
  begun : session < s.nextSession
  gone : s.isOpen session = false
  untracked : s.tracked.contains session = false

/-- The session was torn down after its connection was gone. -/
def TornDown (s : Server) (xs : List Happening) (session : SessionId) : Prop :=
  ∃ before after, xs = before ++ .tearDown session :: after ∧ session < (s.run before).nextSession ∧
    (s.run before).isOpen session = false

section
variable {s : Server} {session : SessionId}

theorem isOpen_eq_false : s.isOpen session = false ↔ ∀ port, s.connections.get? port ≠ some session := by
  rw [Bool.eq_false_iff, ne_eq, isOpen_iff, not_exists]

theorem closed_tearDown (hbegun : session < s.nextSession) (hgone : s.isOpen session = false) :
    Closed session (s.tearDown session) := by
  unfold tearDown
  cases htracked : s.tracked.contains session with
  | true =>
    rw [hgone]
    refine ⟨hbegun, hgone, ?_⟩
    show (s.tracked.erase session).contains session = false
    rw [Table.contains_erase, decide_eq_false (not_not.2 rfl), Bool.false_and]
  | false => exact ⟨hbegun, hgone, htracked⟩

namespace Closed

/-- A new connection has another session. -/
theorem connect (h : Closed session s) (port : Nat) :
    Closed session (s.connect port).2 ∧ (s.connect port).1.id ≠ session := by
  have hgone := isOpen_eq_false.1 h.gone
  unfold Server.connect
  split
  · rename_i other hport
    exact ⟨h, fun he => hgone port (hport.trans (congrArg some he))⟩
  · refine ⟨⟨Nat.lt_succ_of_lt h.begun, isOpen_eq_false.2 fun p hp => ?_, h.untracked⟩, (Nat.ne_of_lt h.begun).symm⟩
    rcases Table.get?_of_insert hp with ⟨-, he⟩ | hp
    · exact Nat.ne_of_lt h.begun he
    · exact hgone p hp

theorem step (h : Closed session s) (x : Happening) : Closed session (s.step x) := by
  cases x with
  | request port r =>
    obtain ⟨hconnected, hne⟩ := h.connect port
    obtain ⟨hconnections, hnext, htracked, -⟩ := s.served_request port r
    refine ⟨?_, isOpen_eq_false.2 fun p => ?_, ?_⟩
    · show session < (s.request port r).2.nextSession
      rw [hnext]
      exact hconnected.begun
    · show (s.request port r).2.connections.get? p ≠ some session
      rw [hconnections]
      exact isOpen_eq_false.1 hconnected.gone p
    · show (s.request port r).2.tracked.contains session = false
      rcases htracked with ⟨htracked, -⟩ | htracked
      · rw [htracked]
        exact hconnected.untracked
      · rw [htracked, Table.contains_insert, decide_eq_false hne, hconnected.untracked]
        rfl
  | close port =>
    exact ⟨h.begun, isOpen_eq_false.2 fun p hp => isOpen_eq_false.1 h.gone p (Table.get?_of_erase hp).2, h.untracked⟩
  | tearDown other =>
    show Closed session (s.tearDown other)
    unfold tearDown
    split
    · refine ⟨h.begun, h.gone, ?_⟩
      show (s.tracked.erase other).contains session = false
      rw [Table.contains_erase, h.untracked, Bool.and_false]
    · exact h
  | proceed a ordinary => exact ⟨h.begun, h.gone, h.untracked⟩

theorem run (h : Closed session s) (xs : List Happening) : Closed session (s.run xs) := by
  induction xs generalizing s with
  | nil => exact h
  | cons x xs ih => exact ih (h.step x)

end Closed

theorem TornDown.closed {xs : List Happening} (h : s.TornDown xs session) : Closed session (s.run xs) := by
  obtain ⟨before, after, rfl, hbegun, hgone⟩ := h
  have hsplit : s.run (before ++ .tearDown session :: after) = ((s.run before).tearDown session).run after :=
    List.foldl_append ..
  rw [hsplit]
  exact (closed_tearDown hbegun hgone).run after

theorem tearDown_of_closed (h : Closed session s) : s.tearDown session = s := by
  unfold tearDown
  rw [h.untracked]
  rfl

/-- The subscriptions of a session are registered exactly as long as they are not ended and the session is connected
or still tracked. -/
theorem Tidy.owner_iff {log : List Entry} (h : Tidy log s) (id : SubscriptionId) :
    s.service.owner? id = some session ↔
      Entry.owners log id = some session ∧ (s.isOpen session = true ∨ s.tracked.contains session = true) := by
  rw [h.owner, Option.filter_eq_some_iff]
  refine and_congr_right fun howner => ⟨.inr, ?_⟩
  rintro (hopen | htracked)
  · exact (h.known id session (Entry.mem_of_owners howner)).2 hopen
  · exact htracked

/-- Nothing is left of a closed session and of whatever it subscribed to. -/
structure Forgotten (log : List Entry) (session : SessionId) (s : Server) : Prop extends Closed session s where
  index : s.service.registry.sessions.get? session = none
  vanished : ∀ id, .established id session ∈ log → Service.Vanished id s.service

theorem Tidy.forgotten {log : List Entry} (h : Tidy log s) (hclosed : Closed session s) : Forgotten log session s := by
  obtain ⟨n, -, horderly, -⟩ := h.booked.orderly
  refine ⟨hclosed, Service.sessions_eq_none horderly.exact fun id howner => ?_, fun id hid => horderly.vanished ?_⟩
  · rw [h.owner, Option.filter_eq_some_iff, hclosed.untracked] at howner
    cases howner.2
  · rw [h.owner]
    rcases h.booked.once id session hid with howner | howner
    · rw [howner, Option.filter_some, hclosed.untracked]
      rfl
    · rw [howner]
      rfl

/-- The end of a session is quiet: nobody is told, no listener is given anything, and the other sessions keep what
they have. -/
theorem Tidy.quiet_tearDown {log : List Entry} (h : Tidy log s) (session : SessionId) :
    (s.tearDown session).service.journal = s.service.journal ∧
    (∀ l, (s.tearDown session).service.dispatcher.accepted l = s.service.dispatcher.accepted l) ∧
    ∀ other, other ≠ session → Service.Spares other s.service (s.tearDown session).service := by
  obtain ⟨n, -, horderly, -⟩ := h.booked.orderly
  unfold Server.tearDown
  split
  · exact ⟨Service.journal_closeSession s.service session, Service.accepted_closeSession s.service session,
      fun other hne => Service.spares_closeSession horderly.heard.wf horderly.sound horderly.exact hne⟩
  · exact ⟨rfl, fun _ => rfl, fun other _ => .refl other s.service⟩

theorem disconnect_disconnect (s : Server) (port : Nat) :
    (s.disconnect port).2.disconnect port = (false, (s.disconnect port).2) := by
  have hgone : (s.disconnect port).2.connections.get? port = none := by
    unfold disconnect
    split
    · assumption
    · simp only
      split <;> exact (Table.get?_erase ..).trans (if_pos rfl)
  generalize (s.disconnect port).2 = t at hgone
  unfold disconnect
  rw [hgone]

theorem closeSession_closeSession {s : Service} (hwf : s.registry.WF) (hexact : s.registry.Exact)
    (session : SessionId) :
    (s.closeSession session).2.closeSession session = ([], (s.closeSession session).2) := by
  have hexact' : (s.closeSession session).2.registry.Exact :=
    Service.exact_step (a := .closeSession session) hexact ⟨hwf, nofun⟩
  refine Service.closeSession_eq_self hexact' fun id howner => ?_
  rw [Service.owner?_closeSession hwf hexact] at howner
  split at howner
  · cases howner
  · contradiction

end

/-- After every run of requests on any connections, notifications, connections that close, and whatever else goes on,
no commit being refused and no id being given twice: a subscription is registered exactly if it was established over
a connection that is still there, or whose session is still tracked, and was not deleted, killed or completed since
then. Once the closed connections that subscribed have been torn down, that leaves the connections that are there.
Of a session that was torn down after its connection was gone nothing is left, from then on: it is not tracked, the
index has no set for it, and there is no record, deadline, datastore entry or listener of any of its
subscriptions. The end of a session puts nothing into any listener and leaves the other sessions alone; to close again,
or to close a session that has no subscriptions, changes nothing. -/
theorem closed_connections_leave_nothing (now : Instant) (c : ServerConfig) (xs : List Happening)
    (hcount : ((start now c).log xs).countP Entry.starts ≤ UInt32.size) :
    let s := (start now c).run xs
    let log := (start now c).log xs
    (∀ id session, s.service.owner? id = some session ↔
      Entry.owners log id = some session ∧ (s.isOpen session = true ∨ s.tracked.contains session = true)) ∧
    ((∀ id session, .established id session ∈ log → s.isOpen session = false → (start now c).TornDown xs session) →
      ∀ id session, s.service.owner? id = some session ↔
        Entry.owners log id = some session ∧ s.isOpen session = true) ∧
    (∀ session, (start now c).TornDown xs session → Forgotten log session s) ∧
    (∀ session, session < s.nextSession → s.isOpen session = false →
      Forgotten log session (s.tearDown session) ∧
      (s.tearDown session).service.journal = s.service.journal ∧
      (∀ l, (s.tearDown session).service.dispatcher.accepted l = s.service.dispatcher.accepted l) ∧
      ∀ other, other ≠ session → Service.Spares other s.service (s.tearDown session).service) ∧
    (∀ port session, s.connections.get? port = some session →
      s.disconnect port = (true, (s.close port).tearDown session)) ∧
    (∀ port, (s.disconnect port).2.disconnect port = (false, (s.disconnect port).2)) ∧
    ∀ session, (Closed session s → s.tearDown session = s) ∧
      (s.service.closeSession session).2.closeSession session = ([], (s.service.closeSession session).2) ∧
      ((∀ id, s.service.owner? id ≠ some session) → s.service.closeSession session = ([], s.service)) := by
  intro s log
  have htidy : Tidy log s := by
    have hrun := (tidy_start now c).run xs (by rwa [List.append_nil])
    rwa [List.append_nil] at hrun
  obtain ⟨n, -, horderly, -⟩ := htidy.booked.orderly
  refine ⟨fun id session => htidy.owner_iff id, fun htorn id session => ?_, fun session h => htidy.forgotten h.closed,
    fun session hbegun hgone => ⟨?_, htidy.quiet_tearDown session⟩, fun port session hport => ?_,
    disconnect_disconnect s, fun session => ⟨tearDown_of_closed, ?_, ?_⟩⟩
  · rw [htidy.owner_iff]
    refine and_congr_right fun howner => ⟨fun hthere => ?_, .inl⟩
    by_contra hclosed
    have hgone := Bool.eq_false_iff.2 hclosed
    have huntracked := (htorn id session (Entry.mem_of_owners howner) hgone).closed.untracked
    rw [hgone, huntracked] at hthere
    rcases hthere with he | he <;> cases he
  · exact (htidy.tearDown session).forgotten (closed_tearDown hbegun hgone)
  · exact disconnect_eq hport fun p hp => htidy.single p port session hp hport
  · exact closeSession_closeSession horderly.heard.wf horderly.exact session
  · exact Service.closeSession_eq_self horderly.exact

/-- Two clients subscribe and the first one goes away; its session is torn down after the second one subscribed. -/
theorem closed_connections_leave_nothing_firstOfTwo :
    let c : ServerConfig := ⟨.standard, .standard, none, .standard, .standard, [], .empty⟩
    let subscribe : HttpRequest := ⟨"POST", "/restconf/operations/establish-subscription", none, none,
      "\x7b\"ietf-subscribed-notifications:input\": \x7b\"stream\": \"NETCONF\"\x7d\x7d"⟩
    let s := (start ⟨0, 0⟩ c).run [.request 4000 subscribe, .close 4000, .request 4001 subscribe, .tearDown 1]
    Service.Vanished firstSubscriptionId s.service ∧ s.tracked.contains 1 = false ∧
      s.service.owner? (firstSubscriptionId + 1) = some 2 := by
  intro c subscribe s
  have hfacts :
      let log := (start ⟨0, 0⟩ c).log [.request 4000 subscribe, .close 4000, .request 4001 subscribe, .tearDown 1]
      let t := (start ⟨0, 0⟩ c).run [.request 4000 subscribe, .close 4000, .request 4001 subscribe]
      log.countP Entry.starts ≤ UInt32.size ∧ Entry.owners log firstSubscriptionId = some 1 ∧
        Entry.owners log (firstSubscriptionId + 1) = some 2 ∧ s.isOpen 2 = true ∧
        1 < t.nextSession ∧ t.isOpen 1 = false := by
    decide +kernel
  have hclosed := closed_connections_leave_nothing ⟨0, 0⟩ c
    [.request 4000 subscribe, .close 4000, .request 4001 subscribe, .tearDown 1] hfacts.1
  have hforgotten := hclosed.2.2.1 1 ⟨[.request 4000 subscribe, .close 4000, .request 4001 subscribe], [], rfl,
    hfacts.2.2.2.2.1, hfacts.2.2.2.2.2⟩
  exact ⟨hforgotten.vanished firstSubscriptionId (Entry.mem_of_owners hfacts.2.1), hforgotten.untracked,
    (hclosed.1 (firstSubscriptionId + 1) 2).2 ⟨hfacts.2.2.1, .inl hfacts.2.2.2.1⟩⟩

end Server

end YangSubscriptions
