import YangSubscriptions.Filter.Subtree
import YangSubscriptions.Schema.Basic

/-!
# Validation of filters

Each root must name a notification of the schema and each node below it a child of the schema node
that the node above it stands for. Content stands for a leaf only, and other nodes never stand below
a leaf.
-/

namespace YangSubscriptions

/-- What is wrong with a filter; the path names the filter nodes from the root (`FilterError`). -/
inductive FilterFault where
  | unknownNode (path : String)
  | contentOnNonLeaf (path : String)
  | childrenOnLeaf (path : String)
  deriving DecidableEq, Repr

def FilterFault.message : FilterFault → String
  | .unknownNode path => s!"filter node `{path}` does not exist in the current schema context"
  | .contentOnNonLeaf path => s!"filter node `{path}` is not a leaf and cannot match content"
  | .childrenOnLeaf path => s!"filter node `{path}` is a leaf and cannot contain other nodes"

namespace FilterNode

mutual

/-- Checks a filter node against the schema node it stands for, whose module is `module` (`validate_node`). -/
def check (node : SchemaNode) (module : Option String) (path : String) : FilterNode → Except FilterFault Unit
  | .content _ _ => if node.kind.isLeaf then .ok () else .error (.contentOnNonLeaf path)
  | .containment _ cs =>
    if !cs.isEmpty && node.kind.isLeaf then .error (.childrenOnLeaf path) else checkChildren node module path cs

/-- Checks filter nodes against the children of a schema node, in their order. -/
def checkChildren (node : SchemaNode) (module : Option String) (path : String) :
    List FilterNode → Except FilterFault Unit
  | [] => .ok ()
  | c :: cs =>
    let childPath := path ++ "/" ++ c.name.render
    match node.child? module c.name with
    | none => .error (.unknownNode childPath)
    | some (child, childModule) => do
      check child childModule childPath c
      checkChildren node module path cs

end

end FilterNode

namespace SubtreeFilter

/-- Checks roots against the notifications of the schema, in their order. -/
def checkRoots (s : Schema) : List FilterNode → Except FilterFault Unit
  | [] => .ok ()
  | r :: rs =>
    match s.notification? r.name with
    | none => .error (.unknownNode r.name.render)
    | some n => do
      r.check n n.module r.name.render
      checkRoots s rs

/-- Checks every node of the filter (`validate`). -/
def validate (f : SubtreeFilter) (s : Schema) : Except FilterFault Unit := checkRoots s f.roots

end SubtreeFilter

end YangSubscriptions
