import YangSubscriptions.Data.Node

/-!
# Subtree filters

A filter is a list of alternatives. A node of it matches content, contains other nodes, all of which
must be satisfied, or, without any, selects what it names.
-/

namespace YangSubscriptions

/-- A filter node: a name with the content it must have, or with the nodes that must be below it. -/
inductive FilterNode where
  | content (name : NodeName) (text : String)
  | containment (name : NodeName) (children : List FilterNode)
  deriving Repr, Inhabited

namespace FilterNode

/-- The node that selects all that it names. -/
def selection (name : NodeName) : FilterNode := .containment name []

def name : FilterNode → NodeName
  | content n _ | containment n _ => n

/-- The content that a content match compares with. -/
def text? : FilterNode → Option String
  | content _ t => some t
  | containment _ _ => none

/-- The filter nodes below a node that contains others. -/
def children : FilterNode → List FilterNode
  | content _ _ => []
  | containment _ cs => cs

def isSelection : FilterNode → Bool
  | containment _ [] => true
  | _ => false

/-- Is it a content match (`is_content_match`)? -/
def isContent : FilterNode → Bool
  | content _ _ => true
  | containment _ _ => false

mutual

/-- The filter node as data, as it is reported in notifications (`to_node`). -/
def toNode : FilterNode → Node
  | content n t => .leaf n (.string t)
  | containment n cs => .container n (listToNodes cs)

/-- The filter nodes one after the other. -/
def listToNodes : List FilterNode → List Node
  | [] => []
  | f :: fs => f.toNode :: listToNodes fs

end

end FilterNode

/-- The alternatives of a filter, of which one must accept. -/
structure SubtreeFilter where
  roots : List FilterNode
  deriving Repr, Inhabited

/-- Without roots a filter accepts everything. -/
def SubtreeFilter.isEmpty (f : SubtreeFilter) : Bool := f.roots.isEmpty

end YangSubscriptions
