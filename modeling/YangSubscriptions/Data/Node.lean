import YangSubscriptions.Data.Name
import YangSubscriptions.Json.Value

/-!
# Data trees

The body of a notification: containers, lists with their entries, leaves and leaf-lists. Values are
compared by their canonical text.
-/

namespace YangSubscriptions

/-- The value of a leaf or of one entry of a leaf-list. -/
inductive LeafValue where
  | string (value : String)
  | number (value : Number)
  | bool (value : Bool)
  | empty
  deriving DecidableEq, Repr, Inhabited

/-- The canonical text of a value, as filters compare it and documents hold it. -/
def LeafValue.text : LeafValue → String
  | .string s => s
  | .number n => String.ofList n.render
  | .bool true => "true"
  | .bool false => "false"
  | .empty => ""

/-- A node with its name. The entries of a list have no names of their own. -/
inductive Node where
  | container (name : NodeName) (children : List Node)
  | list (name : NodeName) (entries : List (List Node))
  | leaf (name : NodeName) (value : LeafValue)
  | leafList (name : NodeName) (values : List LeafValue)
  deriving Repr, Inhabited

namespace Node

def name : Node → NodeName
  | container n _ | list n _ | leaf n _ | leafList n _ => n

/-- The children of a container. -/
def children : Node → List Node
  | container _ cs => cs
  | _ => []

/-- The entries of a list. -/
def entries : Node → List (List Node)
  | list _ es => es
  | _ => []

/-- The value of a leaf. -/
def value? : Node → Option LeafValue
  | leaf _ v => some v
  | _ => none

/-- The first child of that local name. -/
def child? (n : Node) (name : String) : Option Node := n.children.find? (·.name.name = name)

/-- A leaf without a module that holds a text. -/
def text (name value : String) : Node := leaf (.bare name) (.string value)

/-- A leaf without a module that holds an integer. -/
def int (name : String) (value : Int) : Node := leaf (.bare name) (.number (.int value))

end Node

end YangSubscriptions
