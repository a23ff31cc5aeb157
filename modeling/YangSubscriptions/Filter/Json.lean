import YangSubscriptions.Filter.Subtree
import YangSubscriptions.Json.Value

/-!
# Subtree filters from JSON

The members of an object are filter nodes: an object contains, a scalar matches content, and `null`,
an empty object or an array of nulls selects. An array stands for one filter node per item.
-/

namespace YangSubscriptions

/-- Why a value stands for no filter (`JsonCodecError`). -/
inductive FilterJsonFault where
  | objectExpected (name : String)
  | invalidMemberName (name : String)
  | unsupportedValue (name : String)
  deriving DecidableEq, Repr

def FilterJsonFault.message : FilterJsonFault → String
  | .objectExpected name => s!"expected a JSON object for `{name}`"
  | .invalidMemberName name => s!"invalid member name `{name}`"
  | .unsupportedValue name => s!"unsupported value for filter node `{name}`"

/-- A member name whose parts are not empty (`parse_member_name`). -/
def NodeName.ofMember (member : String) : Except FilterJsonFault NodeName :=
  let n := parse member
  if n.name = "" ∨ n.module = some "" then .error (.invalidMemberName member) else .ok n

def Json.isNull : Json → Bool
  | .null => true
  | _ => false

namespace FilterNode

/-- What a scalar or an object stands for; arrays are taken apart before. -/
def ofScalar (name : NodeName) : Json → Option FilterNode
  | .null => some (selection name)
  | .bool b => some (.content name (if b then "true" else "false"))
  | .number n => some (.content name (String.ofList n.render))
  | .string s => some (.content name s)
  | _ => none

mutual

/-- The filter nodes of one member (`filter_nodes`). -/
def ofJson (name : NodeName) : Json → Except FilterJsonFault (List FilterNode)
  | .object members => do .ok [.containment name (← ofMembers members)]
  | .array items => if items.all Json.isNull then .ok [selection name] else ofItems name items
  | v => .ok (ofScalar name v).toList

/-- The filter nodes of the items of an array, which are no arrays themselves. -/
def ofItems (name : NodeName) : List Json → Except FilterJsonFault (List FilterNode)
  | [] => .ok []
  | .array _ :: _ => .error (.unsupportedValue name.render)
  | v :: vs => do
    let fs ← ofJson name v
    .ok (fs ++ (← ofItems name vs))

/-- The filter nodes of the members, in their order (`filter_roots`). -/
def ofMembers : List (String × Json) → Except FilterJsonFault (List FilterNode)
  | [] => .ok []
  | (member, v) :: rest => do
    let fs ← ofJson (← NodeName.ofMember member) v
    .ok (fs ++ (← ofMembers rest))

end

end FilterNode

/-- The filter whose roots are the members; `null` is the filter without roots (`filter_from_json`). -/
def SubtreeFilter.ofJson : Json → Except FilterJsonFault SubtreeFilter
  | .object members => (FilterNode.ofMembers members).map .mk
  | .null => .ok ⟨[]⟩
  | _ => .error (.objectExpected "stream-subtree-filter")

end YangSubscriptions
