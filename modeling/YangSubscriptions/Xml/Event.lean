/-!
# Markup events

A document as the sequence of its events: tags, text, references, comments and the like, up to the
end of the text or the first malformed piece of markup. The scan matches end tags with start tags
and collects the namespace declarations of each start tag; it keeps the contents of text and CDATA
as they are, and a reference by its name.
-/

namespace YangSubscriptions.Xml

/-- A namespace declaration; the empty prefix is the default namespace. -/
structure Binding where
  label : String
  namespaceName : String
  deriving DecidableEq, Repr

/-- A piece of a document. Comments, instructions and declarations are of no account. -/
inductive Event where
  | opening (name : String) (bindings : List Binding)
  | empty (name : String) (bindings : List Binding)
  | closing
  | text (content : String)
  | cdata (content : String)
  | reference (name : String)
  | aside
  deriving DecidableEq, Repr

/-- What makes markup malformed. -/
inductive Malformed where
  | unknownMarkup
  | unclosedInstruction
  | unclosedComment
  | unclosedDoctype
  | unclosedCdata
  | unclosedTag
  | missingDoctypeName
  | unmatchedEndTag (name : String)
  | mismatchedEndTag (expected found : String)
  | unclosedReference
  | xmlPrefixBound (namespaceName : String)
  | xmlnsPrefixBound (namespaceName : String)
  | boundToXml (label : String)
  | boundToXmlns (label : String)
  deriving DecidableEq, Repr

def xmlNamespace : String := "http://www.w3.org/XML/1998/namespace"

def xmlnsNamespace : String := "http://www.w3.org/2000/xmlns/"

/-- A byte in a diagnostic: printable ASCII as it is, a quote escaped, all else in hexadecimal. -/
def byteChars (b : Nat) : List Char :=
  if b = 34 then ['\\', '"']
  else if 32 ≤ b ∧ b ≤ 126 then [Char.ofNat b]
  else '0' :: 'x' :: (Nat.toDigits 16 b).map Char.toUpper

/-- A text in a diagnostic, byte by byte, in quotes. -/
def bytesText (s : String) : String :=
  String.ofList ('"' :: (s.toUTF8.toList.flatMap fun b => byteChars b.toNat) ++ ['"'])

def Malformed.message : Malformed → String
  | .unknownMarkup => "syntax error: unknown or missed symbol in markup"
  | .unclosedInstruction =>
    "syntax error: processing instruction or xml declaration not closed: `?>` not found before end of input"
  | .unclosedComment => "syntax error: comment not closed: `-->` not found before end of input"
  | .unclosedDoctype => "syntax error: DOCTYPE not closed: `>` not found before end of input"
  | .unclosedCdata => "syntax error: CDATA not closed: `]]>` not found before end of input"
  | .unclosedTag => "syntax error: tag not closed: `>` not found before end of input"
  | .missingDoctypeName =>
    "ill-formed document: `<!DOCTYPE>` declaration does not contain a name of a document type"
  | .unmatchedEndTag name => s!"ill-formed document: close tag `</{name}>` does not match any open tag"
  | .mismatchedEndTag expected found =>
    s!"ill-formed document: expected `</{expected}>`, but `</{found}>` was found"
  | .unclosedReference =>
    "ill-formed document: entity or character reference not closed: `;` not found before end of input"
  | .xmlPrefixBound ns => s!"the namespace prefix 'xml' cannot be bound to '{bytesText ns}'"
  | .xmlnsPrefixBound ns => s!"the namespace prefix 'xmlns' cannot be bound to '{bytesText ns}'"
  | .boundToXml label => s!"the namespace prefix '{bytesText label}' cannot be bound to '{xmlNamespace}'"
  | .boundToXmlns label => s!"the namespace prefix '{bytesText label}' cannot be bound to '{xmlnsNamespace}'"

/-- The blanks of markup. -/
def isBlank (c : Char) : Bool := c = ' ' || c = '\x0d' || c = '\n' || c = '\t'

/-! ## Namespace declarations -/

theorem length_dropWhile_le (p : Char → Bool) (cs : List Char) : (cs.dropWhile p).length ≤ cs.length :=
  (List.dropWhile_suffix p).length_le

/-- Does a character run on as an attribute's name? -/
def isName (c : Char) : Bool := c ≠ '=' && !isBlank c

/-- The first attribute as name and value, if it is well formed, and what follows it. -/
def attribute? (cs : List Char) : Option ((List Char × List Char) × { r : List Char // r.length < cs.length }) :=
  match h₀ : cs.dropWhile isBlank with
  | [] => none
  | c :: r =>
    match h₁ : (r.dropWhile isName).dropWhile isBlank with
    | '=' :: r₁ =>
      match h₂ : r₁.dropWhile isBlank with
      | [] => none
      | q :: r₂ =>
        if q = '"' ∨ q = '\'' then
          match h₃ : r₂.dropWhile (· ≠ q) with
          | [] => none
          | _ :: r₃ => some ((c :: r.takeWhile isName, r₂.takeWhile (· ≠ q)), ⟨r₃, by
              have l₀ := length_dropWhile_le isBlank cs
              have l₁ := length_dropWhile_le isBlank (r.dropWhile isName)
              have l₁' := length_dropWhile_le isName r
              have l₂ := length_dropWhile_le isBlank r₁
              have l₃ := length_dropWhile_le (fun x => decide (x ≠ q)) r₂
              rw [h₀, List.length_cons] at l₀
              rw [h₁, List.length_cons] at l₁
              rw [h₂, List.length_cons] at l₂
              rw [h₃, List.length_cons] at l₃
              omega⟩)
        else none
    | _ => none

/-- The attributes of a tag up to the first that is not well formed. -/
def attributes (cs : List Char) : List (List Char × List Char) :=
  match attribute? cs with
  | none => []
  | some (a, ⟨r, _⟩) => a :: attributes r
termination_by cs.length

/-- The declaration that an attribute makes, if it makes one that is allowed. -/
def Binding.ofAttribute (name value : List Char) : Except Malformed (Option Binding) :=
  let ns := String.ofList value
  match name with
  | ['x', 'm', 'l', 'n', 's'] => .ok (some ⟨"", ns⟩)
  | 'x' :: 'm' :: 'l' :: 'n' :: 's' :: ':' :: label =>
    let label := String.ofList label
    if label = "xml" then (if ns = xmlNamespace then .ok none else .error (.xmlPrefixBound ns))
    else if label = "xmlns" then .error (.xmlnsPrefixBound ns)
    else if ns = xmlNamespace then .error (.boundToXml label)
    else if ns = xmlnsNamespace then .error (.boundToXmlns label)
    else .ok (some ⟨label, ns⟩)
  | _ => .ok none

/-- The declarations that the attributes make, in their order. -/
def declared : List (List Char × List Char) → Except Malformed (List Binding)
  | [] => .ok []
  | (name, value) :: rest => do
    let b ← Binding.ofAttribute name value
    let bs ← declared rest
    .ok (b.toList ++ bs)

/-! ## Pieces of markup -/

/-- The content of a tag, whose `<` was read, up to its `>` outside quotes, and what follows it. -/
def tagContent (quote : Option Char) : List Char → Option (List Char × List Char)
  | [] => none
  | c :: r =>
    match quote with
    | some q => (tagContent (if c = q then none else quote) r).map fun (a, b) => (c :: a, b)
    | none =>
      if c = '>' then some ([], r)
      else (tagContent (if c = '\'' ∨ c = '"' then some c else none) r).map fun (a, b) => (c :: a, b)

/-- The content up to the first `mark` followed by `>`, and what follows both. Before `least`
characters the end is not looked for. -/
def contentUpTo (mark : List Char) (least : Nat) (seen : List Char) : List Char → Option (List Char × List Char)
  | [] => none
  | c :: r =>
    if c = '>' ∧ least ≤ seen.length ∧ mark.reverse.isPrefixOf seen then some (seen.reverse, r)
    else contentUpTo mark least (c :: seen) r

/-- The content up to the `>` that balances, and what follows it. -/
def balanced (depth : Nat) : List Char → Option (List Char × List Char)
  | [] => none
  | c :: r =>
    if c = '>' ∧ depth = 0 then some ([], r)
    else
      (balanced (if c = '<' then depth + 1 else if c = '>' then depth - 1 else depth) r).map fun (a, b) => (c :: a, b)

/-- Markup that begins with `<!`, both read. -/
def bang (cs : List Char) : Except Malformed (Event × List Char) :=
  match cs with
  | '[' :: _ =>
    match contentUpTo [']', ']'] 0 [] cs with
    | none => .error .unclosedCdata
    | some (content, rest) =>
      if "[CDATA[".toList.isPrefixOf content then
        .ok (.cdata (String.ofList ((content.drop 7).take (content.length - 9))), rest)
      else .error .unclosedCdata
  | '-' :: _ =>
    match contentUpTo ['-', '-'] 4 [] cs with
    | none => .error .unclosedComment
    | some (content, rest) => if ['-', '-'].isPrefixOf content then .ok (.aside, rest) else .error .unclosedComment
  | c :: _ =>
    if c = 'D' ∨ c = 'd' then
      match balanced 0 cs with
      | none => .error .unclosedDoctype
      | some (content, rest) =>
        if (content.take 7).map Char.toUpper = "DOCTYPE".toList then
          if (content.drop 7).all isBlank then .error .missingDoctypeName else .ok (.aside, rest)
        else .error .unclosedDoctype
    else .error .unknownMarkup
  | [] => .error .unknownMarkup

/-- Markup that begins with `<?`, both read. -/
def instruction (cs : List Char) : Except Malformed (Event × List Char) :=
  match contentUpTo ['?'] 1 ['?'] cs with
  | none => .error .unclosedInstruction
  | some (content, rest) => if content.length < 2 then .error .unclosedInstruction else .ok (.aside, rest)

/-- A start tag or an empty element; the content of the tag was read. -/
def startTag (content : List Char) : Except Malformed Event := do
  let selfClosed := content.getLast? = some '/'
  let content := if selfClosed then content.dropLast else content
  let name := String.ofList (content.takeWhile fun c => !isBlank c)
  let bs ← declared (attributes (content.dropWhile fun c => !isBlank c))
  .ok (if selfClosed then .empty name bs else .opening name bs)

/-- The name in an end tag. -/
def endName (content : List Char) : List Char :=
  let trimmed := (content.reverse.dropWhile isBlank).reverse
  if trimmed.isEmpty then content else trimmed

/-- Markup after its `<`, with the names of the elements that are open, innermost first. -/
def markup (opened : List String) (cs : List Char) : Except Malformed (Event × List String × List Char) :=
  match cs with
  | [] => .error .unclosedTag
  | '!' :: r => do
    let (e, rest) ← bang r
    .ok (e, opened, rest)
  | '?' :: r => do
    let (e, rest) ← instruction r
    .ok (e, opened, rest)
  | '/' :: r =>
    match tagContent none r with
    | none => .error .unclosedTag
    | some (content, rest) =>
      let name := String.ofList (endName content)
      match opened with
      | [] => .error (.unmatchedEndTag name)
      | o :: os => if name = o then .ok (.closing, os, rest) else .error (.mismatchedEndTag o name)
  | _ => do
    match tagContent none cs with
    | none => .error .unclosedTag
    | some (content, rest) =>
      match ← startTag content with
      | .opening name bs => .ok (.opening name bs, name :: opened, rest)
      | e => .ok (e, opened, rest)

/-- A reference after its `&`. -/
def reference (cs : List Char) : Except Malformed (Event × List Char) :=
  let stop (c : Char) : Bool := c ≠ ';' && c ≠ '&' && c ≠ '<'
  match cs.dropWhile stop with
  | ';' :: rest => .ok (.reference (String.ofList (cs.takeWhile stop)), rest)
  | _ => .error .unclosedReference

/-! ## The scan -/

/-- Does a character run on as text? -/
def isText (c : Char) : Bool := c ≠ '<' && c ≠ '&'

/-- The next event and what follows it; none at the end of the text. -/
def next (opened : List String) (cs : List Char) : Except Malformed (Option (Event × List String × List Char)) :=
  match cs with
  | [] => .ok none
  | '<' :: r => (markup opened r).map some
  | '&' :: r => (reference r).map fun (e, rest) => some (e, opened, rest)
  | _ => .ok (some (.text (String.ofList (cs.takeWhile isText)), opened, cs.dropWhile isText))

/-- The events of a text and, if it does not end well, what is wrong after the last of them. -/
structure Scan where
  events : List Event
  failure : Option Malformed
  deriving DecidableEq, Repr

/-- Scans with at most `fuel` events. -/
def scanFrom (fuel : Nat) (opened : List String) (cs : List Char) : Scan :=
  match fuel with
  | 0 => ⟨[], none⟩
  | fuel + 1 =>
    match next opened cs with
    | .error e => ⟨[], some e⟩
    | .ok none => ⟨[], none⟩
    | .ok (some (e, opened', rest)) =>
      let s := scanFrom fuel opened' rest
      ⟨e :: s.events, s.failure⟩

/-- Scans a text, without its byte order mark; each event takes at least one character. -/
def scan (s : String) : Scan :=
  let cs := match s.toList with
    | '\ufeff' :: r => r
    | cs => cs
  scanFrom (cs.length + 1) [] cs

end YangSubscriptions.Xml
