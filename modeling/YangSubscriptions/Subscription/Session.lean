/-!
# Sessions

The client connection that a request arrives on. Its id alone identifies it; the rest is for people.
-/

namespace YangSubscriptions

abbrev SessionId := Nat

/-- The connection that a request arrives on, as a request is given it (`TransportSession`). -/
structure Session where
  id : SessionId
  description : String
  principal : Option String
  deriving Repr, Inhabited

namespace Session

/-- Are these handles of one session? Only the ids count. -/
def same (s t : Session) : Bool := s.id = t.id

/-- The name of the session as a receiver (`receiver_name`). -/
def receiverName (s : Session) : String := s.principal.getD "anonymous" ++ " via " ++ s.description

def render (s : Session) : String := s!"session {s.id} ({s.description})"

end Session

end YangSubscriptions
