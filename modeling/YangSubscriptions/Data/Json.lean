import YangSubscriptions.Data.Node

/-!
# RFC 7951 encoding of data trees

A member is qualified by its module where that differs from the module of the parent. The empty
type is written as `[null]`.
-/

namespace YangSubscriptions

/-- How a value stands in JSON (`leaf_value`). -/
def LeafValue.toJson : LeafValue → Json
  | .string s => .string s
  | .number n => .number n
  | .bool b => .bool b
  | .empty => .array [.null]

/-- The member name of a node below a parent of that module (`member_name`). -/
def NodeName.member (n : NodeName) (parent : Option String) : String :=
  match n.module with
  | some module => if some module = parent then n.name else module ++ ":" ++ n.name
  | none => n.name

namespace Node

mutual

/-- The value of a node's member; `module` is the module of the node itself (`encode_member`). -/
def jsonValue (module : Option String) : Node → Json
  | .container _ cs => .ofMembers (jsonMembers module cs)
  | .list _ es => .array (jsonEntries module es)
  | .leaf _ v => v.toJson
  | .leafList _ vs => .array (vs.map LeafValue.toJson)

/-- The entries of a list, one object each. -/
def jsonEntries (module : Option String) : List (List Node) → List Json
  | [] => []
  | e :: es => .ofMembers (jsonMembers module e) :: jsonEntries module es

/-- The members of nodes below a parent of that module, in document order (`children_object`). -/
def jsonMembers (module : Option String) : List Node → List (String × Json)
  | [] => []
  | n :: ns => (n.name.member module, jsonValue (n.name.effectiveModule module) n) :: jsonMembers module ns

end

/-- The member of a node without a parent. -/
def jsonMember (n : Node) : String × Json := (n.name.member none, jsonValue n.name.module n)

/-- A node on its own, as an object of one member (`encode_node`). -/
def toJson (n : Node) : Json := .ofMembers [n.jsonMember]

end Node

end YangSubscriptions
