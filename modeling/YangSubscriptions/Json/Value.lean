import YangSubscriptions.Decimal.Shortest

/-!
# JSON values

Objects keep their members in the order they were first given. A number is an integer of 64 bits,
signed or unsigned, or else a binary64 value.
-/

namespace YangSubscriptions

/-- A number of a document; how it was spelled is not kept. -/
inductive Number where
  | int (value : Int)
  | float (value : Binary64)
  deriving DecidableEq, Repr, Inhabited

/-- The number as it is written in a document. -/
def Number.render : Number → List Char
  | .int n => (toString n).toList
  | .float x => x.render

/-- A value of a document. -/
inductive Json where
  | null
  | bool (value : Bool)
  | number (value : Number)
  | string (value : String)
  | array (items : List Json)
  | object (members : List (String × Json))
  deriving Repr, Inhabited

namespace Json

/-- Puts a member: a name that is there keeps its place and takes the new value. -/
def insertMember (name : String) (value : Json) : List (String × Json) → List (String × Json)
  | [] => [(name, value)]
  | (n, v) :: rest => if n = name then (n, value) :: rest else (n, v) :: insertMember name value rest

/-- The object with these members, given one after the other. -/
def ofMembers (members : List (String × Json)) : Json :=
  .object (members.foldl (fun acc (n, v) => insertMember n v acc) [])

/-- The value of a member of an object. -/
def member? (name : String) : Json → Option Json
  | .object members => (members.find? (·.1 = name)).map (·.2)
  | _ => none

def int (n : Int) : Json := .number (.int n)

end Json

end YangSubscriptions
