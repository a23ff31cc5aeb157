/-!
# Writing tags and text

Tags declare a default namespace where it differs from the one around them. A writer keeps the
default namespaces of the elements that are open.
-/

namespace YangSubscriptions.Xml

/-- The five characters with an entity of their own. -/
def escapeChar (c : Char) : List Char :=
  if c = '<' then ['&', 'l', 't', ';']
  else if c = '>' then ['&', 'g', 't', ';']
  else if c = '&' then ['&', 'a', 'm', 'p', ';']
  else if c = '\'' then ['&', 'a', 'p', 'o', 's', ';']
  else if c = '"' then ['&', 'q', 'u', 'o', 't', ';']
  else [c]

def escaped (s : String) : List Char := s.toList.flatMap escapeChar

/-- The declaration of a default namespace, inside `current`. Without a namespace nothing changes. -/
def declaration (current ns : Option String) : List Char :=
  match ns with
  | some n => if current = some n then [] else " xmlns=\"".toList ++ escaped n ++ ['"']
  | none => []

/-- The default namespace within an element. -/
def inner (current ns : Option String) : Option String := ns.or current

/-- A start tag; `ns` is the namespace of the element (`start_element`). -/
def startTagChars (current : Option String) (name : String) (ns : Option String) : List Char :=
  '<' :: name.toList ++ declaration current ns ++ ['>']

/-- An element without content in one tag (`empty_element`). -/
def emptyTagChars (current : Option String) (name : String) (ns : Option String) : List Char :=
  '<' :: name.toList ++ declaration current ns ++ ['/', '>']

def endTagChars (name : String) : List Char := '<' :: '/' :: name.toList ++ ['>']

/-- An element that holds a text; without any it is an empty element (`text_element`). -/
def textElementChars (current : Option String) (name : String) (ns : Option String) (text : String) : List Char :=
  if text = "" then emptyTagChars current name ns
  else startTagChars current name ns ++ escaped text ++ endTagChars name

/-- What was written, and the default namespaces of the open elements, innermost first (`XmlWriter`). -/
structure Writer where
  output : List Char
  scopes : List (Option String)

namespace Writer

def new : Writer := ⟨[], []⟩

/-- The default namespace where the writer stands (`current_namespace`). -/
def current (w : Writer) : Option String := w.scopes.head?.join

def write (w : Writer) (cs : List Char) : Writer := { w with output := w.output ++ cs }

/-- Opens an element (`start_element`). -/
def startElement (w : Writer) (name : String) (ns : Option String) : Writer :=
  ⟨w.output ++ startTagChars w.current name ns, inner w.current ns :: w.scopes⟩

/-- Closes the innermost element (`end_element`). -/
def endElement (w : Writer) (name : String) : Writer := ⟨w.output ++ endTagChars name, w.scopes.tail⟩

def emptyElement (w : Writer) (name : String) (ns : Option String) : Writer :=
  w.write (emptyTagChars w.current name ns)

def textElement (w : Writer) (name : String) (ns : Option String) (text : String) : Writer :=
  w.write (textElementChars w.current name ns text)

end Writer

end YangSubscriptions.Xml
