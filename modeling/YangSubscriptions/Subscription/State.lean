/-!
# States of a subscription

A subscription starts, alternates between active and suspended, and ends.
-/

namespace YangSubscriptions

inductive SubscriptionState where
  | start
  | active
  | suspended
  | ended
  deriving DecidableEq, Repr, Inhabited

namespace SubscriptionState

/-- How an error names a state. -/
def name : SubscriptionState → String
  | start => "START"
  | active => "ACTIVE"
  | suspended => "SUSPENDED"
  | ended => "END"

def all : List SubscriptionState := [start, active, suspended, ended]

def ofName? (name : String) : Option SubscriptionState := all.find? (·.name = name)

/-- The states that may follow (`allowed_transitions`). -/
def successors : SubscriptionState → List SubscriptionState
  | start => [active, ended]
  | active => [suspended, ended]
  | suspended => [active, ended]
  | ended => []

/-- Is the step in the table (`can_move_to`)? -/
def canMoveTo (s t : SubscriptionState) : Bool := s.successors.contains t

/-- Has it started, and not ended (`is_active_or_suspended`)? -/
def isLive : SubscriptionState → Bool
  | active | suspended => true
  | start | ended => false

end SubscriptionState

end YangSubscriptions
