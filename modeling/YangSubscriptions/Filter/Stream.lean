import YangSubscriptions.Filter.LocationPath
import YangSubscriptions.Filter.Validation

/-!
# Filters of a subscription

What a subscriber asks for: a subtree filter, a location path or the name of a registered filter.
Resolved, a subtree filter decides about a notification and prunes it, a location path only decides.
-/

namespace YangSubscriptions

/-- A filter as a subscriber gives it. -/
inductive StreamFilter where
  | subtree (filter : SubtreeFilter)
  | path (filter : PathFilter)
  | named (name : String)
  deriving Repr, Inhabited

/-- The filter as it is reported in notifications and records (`to_node`). -/
def StreamFilter.toNode : StreamFilter → Node
  | .subtree f => .container (.bare "stream-subtree-filter") (FilterNode.listToNodes f.roots)
  | .path f => .text "stream-xpath-filter" f.expression
  | .named name => .text "stream-filter-name" name

/-- The subtree filter that decides, which for a path is the one it stands for. -/
def StreamFilter.template? : StreamFilter → Option SubtreeFilter
  | .subtree f => some f
  | .path f => some f.filter
  | .named _ => none

/-- A filter that decides by itself, without the table of stored ones. -/
inductive ResolvedFilter where
  | all
  | subtree (filter : SubtreeFilter)
  | path (filter : PathFilter)
  deriving Repr, Inhabited

/-- What a filter resolves to where no filter is registered. -/
def StreamFilter.resolved : StreamFilter → ResolvedFilter
  | .subtree f => .subtree f
  | .path f => .path f
  | .named _ => .all

namespace ResolvedFilter

/-- What is delivered of a body; none if the filter rejects it (`apply`). -/
def apply : ResolvedFilter → Node → Option Node
  | .all, body => some body
  | .subtree f, body => f.prune body
  | .path f, body => if f.accepts body then some body else none

/-- Checks the filter against the schema; a path is checked as the filter that it stands for. -/
def validate : ResolvedFilter → Schema → Except FilterFault Unit
  | .all, _ => .ok ()
  | .subtree f, s => f.validate s
  | .path f, s => f.filter.validate s

end ResolvedFilter

end YangSubscriptions
