import YangSubscriptions.Text.Blank
import YangSubscriptions.Xml.Event

/-!
# Elements

The tree of elements of a document, with each element's namespace resolved. A document is its
prolog, one root element and the event after it; what follows that is not looked at.
-/

namespace YangSubscriptions.Xml

/-- An element with its name resolved (`XmlElement`). -/
inductive Element where
  | mk (namespaceName : Option String) (name : String) (content : String) (children : List Element)
  deriving Repr, Inhabited, BEq

namespace Element

def namespaceName : Element → Option String
  | mk ns _ _ _ => ns

def name : Element → String
  | mk _ n _ _ => n

/-- The text between the tags, blanks included, without that of the children. -/
def content : Element → String
  | mk _ _ t _ => t

def children : Element → List Element
  | mk _ _ _ cs => cs

/-- The text without the blanks around it. -/
def text (e : Element) : String := Text.trim e.content

/-- The first child of that local name. -/
def child? (e : Element) (name : String) : Option Element := e.children.find? (·.name = name)

end Element

/-- Why a text does not give an element, or not the expected one (`ParsingError`). -/
inductive Fault where
  | unexpected (found : Event)
  | missingElement (name : String)
  | invalidValue (value : String)
  | unknownPrefix (label : String)
  | unknownNamespace (namespaceName : String)
  | malformed (cause : Malformed)
  | endOfInput
  deriving DecidableEq, Repr

/-- The form of an event in a diagnostic. Only text and references are ever found in place of an
element. -/
def Event.diagnostic : Event → String
  | .text s => s!"Text(BytesText \x7b content: Owned({bytesText s}) \x7d)"
  | .cdata s => s!"CData(BytesCData \x7b content: Owned({bytesText s}) \x7d)"
  | .reference s => s!"GeneralRef(BytesRef \x7b content: Owned({bytesText s}) \x7d)"
  | _ => "Eof"

def Fault.message : Fault → String
  | .unexpected found => s!"expecting element but found {found.diagnostic}"
  | .missingElement name => s!"required XML element `{name}` is missing"
  | .invalidValue value => s!"invalid value: `{value}`"
  | .unknownPrefix label => s!"undeclared namespace prefix `{label}`"
  | .unknownNamespace ns => s!"namespace `{ns}` does not belong to any known module"
  | .malformed cause => cause.message
  | .endOfInput => "Found EOF while expecting data"

/-! ## Names -/

/-- The declarations in effect, the innermost and latest first. -/
abbrev Scope := List Binding

def Scope.initial : Scope := [⟨"xmlns", xmlnsNamespace⟩, ⟨"xml", xmlNamespace⟩]

/-- Inside a start tag that makes declarations. -/
def Scope.enter (scope : Scope) (bs : List Binding) : Scope := bs.reverse ++ scope

/-- The namespace of an element's name and its local part. An empty namespace undeclares. -/
def Scope.resolve (scope : Scope) (name : String) : Except Fault (Option String × String) :=
  match Text.cut? ':' name with
  | none =>
    match scope.find? (·.label = "") with
    | some b => .ok (if b.namespaceName = "" then none else some b.namespaceName, name)
    | none => .ok (none, name)
  | some (label, local_) =>
    match scope.find? (fun b => b.label = label ∧ label ≠ "") with
    | some b => if b.namespaceName = "" then .error (.unknownPrefix label) else .ok (some b.namespaceName, local_)
    | none => .error (.unknownPrefix label)

/-! ## Trees -/

/-- What one reference stands for: the predefined entities by name, any other its own name. -/
def referenceText (name : String) : String :=
  if name = "quot" then "\""
  else if name = "apos" then "'"
  else if name = "amp" then "&"
  else if name = "lt" then "<"
  else if name = "gt" then ">"
  else name

/-- An element that is open, with its children so far, the latest first. -/
structure Partial where
  namespaceName : Option String
  name : String
  content : String
  children : List Element
  scope : Scope

def Partial.close (p : Partial) : Element := .mk p.namespaceName p.name p.content p.children.reverse

def Partial.addText (p : Partial) (s : String) : Partial := { p with content := p.content ++ s }

def Partial.addChild (p : Partial) (e : Element) : Partial := { p with children := e :: p.children }

/-- Opens the element of a start tag. -/
def Scope.start (scope : Scope) (name : String) (bs : List Binding) : Except Fault Partial := do
  let scope := scope.enter bs
  let (ns, local_) ← scope.resolve name
  .ok ⟨ns, local_, "", [], scope⟩

/-- A finished root needs the event after it to be well formed. -/
def finish (root : Element) (rest : List Event) (failure : Option Malformed) : Except Fault Element :=
  match rest, failure with
  | [], some m => .error (.malformed m)
  | _, _ => .ok root

/-- Reads on inside the element `top`, around which the `outer` ones are open (`read_element`). -/
def build (failure : Option Malformed) (top : Partial) (outer : List Partial) :
    List Event → Except Fault Element
  | [] => .error (match failure with
    | some m => .malformed m
    | none => .endOfInput)
  | .opening name bs :: rest => do
    let p ← top.scope.start name bs
    build failure p (top :: outer) rest
  | .empty name bs :: rest => do
    let p ← top.scope.start name bs
    build failure (top.addChild p.close) outer rest
  | .closing :: rest =>
    match outer with
    | [] => finish top.close rest failure
    | p :: ps => build failure (p.addChild top.close) ps rest
  | .text s :: rest => build failure (top.addText s) outer rest
  | .cdata s :: rest => build failure (top.addText s) outer rest
  | .reference s :: rest => build failure (top.addText (referenceText s)) outer rest
  | .aside :: rest => build failure top outer rest

/-- Reads the root element after the prolog (`skip_prolog`). -/
def root (failure : Option Malformed) : List Event → Except Fault Element
  | [] => .error (match failure with
    | some m => .malformed m
    | none => .endOfInput)
  | .aside :: rest => root failure rest
  | .text s :: rest => if s.toList.all Text.isAsciiBlank then root failure rest else .error (.unexpected (.text s))
  | .opening name bs :: rest => do
    let p ← Scope.initial.start name bs
    build failure p [] rest
  | .empty name bs :: rest => do
    let p ← Scope.initial.start name bs
    finish p.close rest failure
  | found :: _ => .error (.unexpected found)

/-- The root element of a document (`parse_document`). -/
def parse (text : String) : Except Fault Element :=
  let s := scan text
  root s.failure s.events

end YangSubscriptions.Xml
