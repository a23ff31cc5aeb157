import YangSubscriptions.Filter.Subtree
import YangSubscriptions.Schema.Basic
import YangSubscriptions.Xml.Element

/-!
# Subtree filters from XML

An element with children contains them, one with text only matches it, and an empty one selects.
Namespaces become modules.
-/

namespace YangSubscriptions

namespace FilterNode

/-- The name of an element, by the module of its namespace. -/
def elementName (s : Schema) (e : Xml.Element) : Except Xml.Fault NodeName :=
  match e.namespaceName with
  | none => .ok (.bare e.name)
  | some ns =>
    match s.moduleOf? ns with
    | some module => .ok (.qualified module e.name)
    | none => .error (.unknownNamespace ns)

mutual

/-- The filter node of an element (`filter_node`). -/
def ofElement (s : Schema) : Xml.Element → Except Xml.Fault FilterNode
  | .mk ns name body children => do
    let n ← elementName s (.mk ns name body children)
    if children.isEmpty then
      let text := Text.trim body
      .ok (if text = "" then selection n else .content n text)
    else .ok (.containment n (← ofElements s children))

/-- The filter nodes of elements, in their order. -/
def ofElements (s : Schema) : List Xml.Element → Except Xml.Fault (List FilterNode)
  | [] => .ok []
  | e :: es => do
    let f ← ofElement s e
    .ok (f :: (← ofElements s es))

end

end FilterNode

/-- The filter whose roots are the children of an element (`filter_from_xml`). -/
def SubtreeFilter.ofXml (s : Schema) (e : Xml.Element) : Except Xml.Fault SubtreeFilter :=
  (FilterNode.ofElements s e.children).map .mk

end YangSubscriptions
