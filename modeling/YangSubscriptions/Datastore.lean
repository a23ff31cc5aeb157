import YangSubscriptions.Json.Value
import YangSubscriptions.Notification.Event
import YangSubscriptions.Table

/-!
# The datastore

Operational data by path. Writes are collected and take effect together, or not at all while the
store refuses commits.
-/

namespace YangSubscriptions

/-- A location in the data tree, one segment per step. -/
abbrev DataPath := List String

namespace DataPath

/-- Where the record of a subscription is. -/
def subscription (id : SubscriptionId) : DataPath :=
  [subscribedNotifications ++ ":subscriptions", s!"subscription={id}"]

def render (p : DataPath) : String := String.intercalate "/" p

/-- Does it lie at or below the other (`starts_with`)? -/
def isBelow (p ancestor : DataPath) : Bool := List.isPrefixOf ancestor p

end DataPath

/-- A write that a commit applies, in its place among the others. -/
inductive Write where
  | put (path : DataPath) (value : Json)
  | delete (path : DataPath)
  deriving Repr

/-- Why the datastore did not do as it was asked. -/
inductive DatastoreFault where
  | commitFailed (reason : String)
  | readFailed (reason : String)
  deriving DecidableEq, Repr

def DatastoreFault.message : DatastoreFault → String
  | .commitFailed reason => s!"commit failed: {reason}"
  | .readFailed reason => s!"read failed: {reason}"

/-- What was committed, and whether commits are refused (`set_fail_commits`). -/
structure Datastore where
  tree : Table DataPath Json
  refusing : Bool

namespace Datastore

def empty : Datastore := ⟨.empty, false⟩

/-- Writes a value, or deletes a path with all that is below it. -/
def apply (d : Datastore) : Write → Datastore
  | .put path value => { d with tree := d.tree.insert path value }
  | .delete path => { d with tree := d.tree.filter fun p _ => !DataPath.isBelow p path }

/-- All the writes in their order, or none of them (`commit`). -/
def commit (d : Datastore) (writes : List Write) : Except DatastoreFault Datastore :=
  if d.refusing then .error (.commitFailed "datastore is not accepting commits") else .ok (writes.foldl apply d)

/-- Commits, or leaves all as it is while the store refuses commits. -/
def commitOrKeep (d : Datastore) (writes : List Write) : Datastore := (d.commit writes).toOption.getD d

def read (d : Datastore) (path : DataPath) : Option Json := d.tree.get? path

def size (d : Datastore) : Nat := d.tree.size

end Datastore

end YangSubscriptions
