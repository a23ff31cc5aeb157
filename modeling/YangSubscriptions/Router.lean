import YangSubscriptions.Stream.Registry

/-!
# The router

Hands each published notification to the feeds that select its stream. A feed is a queue; it takes
part until its reader closes it.
-/

namespace YangSubscriptions

/-- Which notifications a feed takes (`StreamSelector`). -/
inductive Selector where
  | all
  | stream (name : String)
  deriving DecidableEq, Repr

namespace Selector

/-- The selector of a stream's feed: the default stream carries everything (`for_stream`). -/
def forStream (name : String) : Selector := if name = netconfStream then .all else .stream name

def accepts : Selector → String → Bool
  | .all, _ => true
  | .stream name, s => name = s

end Selector

/-- A queue that a stream's reader takes from. -/
structure Feed where
  name : String
  selector : Selector
  queue : List Notification
  isOpen : Bool
  deriving Repr

/-- The feeds in the order they subscribed. -/
structure Router where
  feeds : List Feed
  deriving Repr

namespace Router

def empty : Router := ⟨[]⟩

/-- Adds a feed at the end (`subscribe`). -/
def subscribe (r : Router) (name : String) (selector : Selector) : Router :=
  ⟨r.feeds ++ [⟨name, selector, [], true⟩]⟩

/-- The feeds that a notification on a stream goes to. -/
def targets (r : Router) (stream : String) : List Feed := r.feeds.filter fun f => f.isOpen && f.selector.accepts stream

/-- Queues a notification where it is selected; tells in how many feeds (`publish`). Closed feeds are dropped. -/
def publish (r : Router) (n : Notification) : Nat × Router :=
  ((r.targets n.stream).length,
    ⟨(r.feeds.filter (·.isOpen)).map fun f =>
      if f.selector.accepts n.stream then { f with queue := f.queue ++ [n] } else f⟩)

/-- Changes the feed of a name. -/
def modify (r : Router) (name : String) (change : Feed → Feed) : Router :=
  ⟨r.feeds.map fun f => if f.name = name then change f else f⟩

/-- Closes the feed of a name; it no longer takes anything. -/
def close (r : Router) (name : String) : Router := r.modify name fun f => { f with isOpen := false }

/-- The feed of a name. -/
def feed? (r : Router) (name : String) : Option Feed := r.feeds.find? (·.name = name)

/-- Takes the first notification from the feed of a name. -/
def take? (r : Router) (name : String) : Option (Notification × Router) :=
  match r.feed? name with
  | some ⟨_, _, n :: _, _⟩ => some (n, r.modify name fun f => { f with queue := f.queue.tail })
  | _ => none

end Router

end YangSubscriptions
