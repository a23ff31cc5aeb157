import YangSubscriptions.Data.Node
import YangSubscriptions.Schema.Basic
import YangSubscriptions.Xml.Writer

/-!
# XML encoding of data trees

An element for each container, list entry, leaf and value of a leaf-list. A namespace is declared
where the module changes, and a module without a namespace cannot be written.
-/

namespace YangSubscriptions

/-- A module without a known namespace. -/
structure NoNamespace where
  module : String
  deriving DecidableEq, Repr

def NoNamespace.message (e : NoNamespace) : String := s!"no XML namespace is known for module `{e.module}`"

/-- The namespace of a name's own module (`namespace_of`). -/
def Schema.namespaceOf (s : Schema) (n : NodeName) : Except NoNamespace (Option String) :=
  match n.module with
  | none => .ok none
  | some module =>
    match s.xmlnsOf? module with
    | some ns => .ok (some ns)
    | none => .error ⟨module⟩

namespace Node

/-- The namespace that is declared for a node below a parent of that module. -/
def declaredNamespace (s : Schema) (parent : Option String) (n : NodeName) : Except NoNamespace (Option String) :=
  if n.effectiveModule parent = parent then .ok none else s.namespaceOf n

mutual

/-- The elements of a node below a parent of that module, where `current` is the default namespace (`write_node`). -/
def xmlChars (s : Schema) (parent current : Option String) : Node → Except NoNamespace (List Char)
  | .container n cs => do
    let ns ← declaredNamespace s parent n
    if cs.isEmpty then .ok (Xml.emptyTagChars current n.name ns)
    else do
      let body ← xmlList s (n.effectiveModule parent) (Xml.inner current ns) cs
      .ok (Xml.startTagChars current n.name ns ++ body ++ Xml.endTagChars n.name)
  | .list n es => do
    let ns ← declaredNamespace s parent n
    xmlEntries s (n.effectiveModule parent) (Xml.inner current ns) (Xml.startTagChars current n.name ns)
      (Xml.endTagChars n.name) es
  | .leaf n v => do
    let ns ← declaredNamespace s parent n
    .ok (Xml.textElementChars current n.name ns v.text)
  | .leafList n vs => do
    let ns ← declaredNamespace s parent n
    .ok (vs.flatMap fun v => Xml.textElementChars current n.name ns v.text)

/-- The elements of siblings, one after the other. -/
def xmlList (s : Schema) (module current : Option String) : List Node → Except NoNamespace (List Char)
  | [] => .ok []
  | n :: ns => do
    let a ← xmlChars s module current n
    let b ← xmlList s module current ns
    .ok (a ++ b)

/-- The elements of a list's entries, each between the tags of the list. -/
def xmlEntries (s : Schema) (module current : Option String) (opening closing : List Char) :
    List (List Node) → Except NoNamespace (List Char)
  | [] => .ok []
  | e :: es => do
    let a ← xmlList s module current e
    let b ← xmlEntries s module current opening closing es
    .ok (opening ++ a ++ closing ++ b)

end

/-- A node on its own (`encode_node`). -/
def toXml (s : Schema) (n : Node) : Except NoNamespace String := (n.xmlChars s none none).map String.ofList

end Node

/-- Writes a node below a parent of that module. -/
def Xml.Writer.node (s : Schema) (parent : Option String) (w : Xml.Writer) (n : Node) : Except NoNamespace Xml.Writer :=
  (n.xmlChars s parent w.current).map w.write

end YangSubscriptions
