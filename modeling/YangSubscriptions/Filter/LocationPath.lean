import YangSubscriptions.Text.Blank
import YangSubscriptions.Filter.Selection

/-!
# Location paths

Unions of absolute child paths with predicates that compare a child with a literal, such as
`/m:inventory/entry[name='wheat'][id=1]/tags`. Each path stands for a filter root: a step contains
its predicates, as content matches, and the next step.
-/

namespace YangSubscriptions

/-- Why an expression is not a union of location paths (`XPathError`). -/
inductive PathFault where
  | blank
  | notAbsolute (path : String)
  | emptyStep (path : String)
  | invalidName (name : String)
  | unsupportedPredicate (predicate : String)
  | unterminated (part : String)
  deriving DecidableEq, Repr

def PathFault.message : PathFault → String
  | .blank => "empty XPath expression"
  | .notAbsolute path => s!"XPath expression must be an absolute location path: `{path}`"
  | .emptyStep path => s!"empty location step in `{path}`"
  | .invalidName name => s!"invalid node name `{name}`"
  | .unsupportedPredicate p => s!"unsupported predicate `{p}`, only `[name='value']` is supported"
  | .unterminated part => s!"unterminated predicate or literal in `{part}`"

namespace LocationPath

open Text (trimChars dropBlanks cutChars)

/-! ## Lexical parts -/

def isIdentifierStart (c : Char) : Bool := c.isAlpha || c = '_'

def isIdentifierPart (c : Char) : Bool := c.isAlphanum || c = '_' || c = '-' || c = '.'

/-- An ASCII identifier. -/
def isIdentifier : List Char → Bool
  | [] => false
  | c :: r => isIdentifierStart c && r.all isIdentifierPart

/-- A name with an optional prefix, which is a module name (`parse_name`). -/
def name? (cs : List Char) : Option NodeName :=
  match cutChars ':' cs with
  | some (module, name) =>
    if isIdentifier module && isIdentifier name then some ⟨some (String.ofList module), String.ofList name⟩ else none
  | none => if isIdentifier cs then some ⟨none, String.ofList cs⟩ else none

/-- A number without its sign. -/
def skipSign : List Char → List Char
  | '+' :: r => r
  | '-' :: r => r
  | cs => cs

/-- Digits, perhaps with a point among them or at an end, and an optional exponent. -/
def isDecimal (cs : List Char) : Bool :=
  let whole := cs.takeWhile Char.isDigit
  let r := cs.dropWhile Char.isDigit
  let fraction := match r with
    | '.' :: r => r.takeWhile Char.isDigit
    | _ => []
  let r := match r with
    | '.' :: r => r.dropWhile Char.isDigit
    | r => r
  let exponent := match r with
    | [] => true
    | c :: r => (c = 'e' || c = 'E') && !(skipSign r).isEmpty && (skipSign r).all Char.isDigit
  !(whole.isEmpty && fraction.isEmpty) && exponent

/-- A floating point number, which includes the names of infinity and of what is not a number. -/
def isNumber (cs : List Char) : Bool :=
  let cs := skipSign cs
  let lower := cs.map Char.toLower
  isDecimal cs || lower = "inf".toList || lower = "infinity".toList || lower = "nan".toList

/-- The text between two of these quotes. -/
def quoted? (quote : Char) : List Char → Option (List Char)
  | c :: r => if c = quote ∧ r.getLast? = some quote then some r.dropLast else none
  | [] => none

/-- The value of a literal: what is between quotes, or a number as it is written. -/
def literal? (cs : List Char) : Option (List Char) :=
  ((quoted? '\'' cs).or (quoted? '"' cs)).or (if isNumber cs then some cs else none)

/-! ## Splitting -/

/-- Where a splitter stands: how many brackets are open, and the quote that is. -/
structure Nesting where
  depth : Nat
  quote : Option Char
  deriving DecidableEq, Repr

/-- The nesting after a character; none for a bracket that closes nothing. -/
def Nesting.after (n : Nesting) (c : Char) : Option Nesting :=
  match n.quote with
  | some q => some (if c = q then { n with quote := none } else n)
  | none =>
    if (c = '\'' ∨ c = '"') ∧ 0 < n.depth then some { n with quote := some c }
    else if c = '[' then some { n with depth := n.depth + 1 }
    else if c = ']' then (if n.depth = 0 then none else some { n with depth := n.depth - 1 })
    else some n

/-- The parts between the separators that stand outside brackets and quotes (`split_outside_brackets`). -/
def splitFrom (separator : Char) (n : Nesting) : List Char → Option (List (List Char))
  | [] => if n.depth = 0 ∧ n.quote = none then some [[]] else none
  | c :: r =>
    if c = separator ∧ n.depth = 0 ∧ n.quote = none then (splitFrom separator n r).map ([] :: ·)
    else
      match n.after c with
      | none => none
      | some n' =>
        match splitFrom separator n' r with
        | some (p :: ps) => some ((c :: p) :: ps)
        | other => other

/-- The parts of a whole text, at whose end nothing may be open. -/
def split (separator : Char) (cs : List Char) : Except PathFault (List (List Char)) :=
  match splitFrom separator ⟨0, none⟩ cs with
  | some parts => .ok parts
  | none => .error (.unterminated (String.ofList cs))

/-- The content of a predicate, whose bracket was read, and what follows it (`closing_bracket`). -/
def predicateContent (quote : Option Char) : List Char → Option (List Char × List Char)
  | [] => none
  | c :: r =>
    match quote with
    | some q => (predicateContent (if c = q then none else quote) r).map fun (a, b) => (c :: a, b)
    | none =>
      if c = ']' then some ([], r)
      else if c = '[' then none
      else
        (predicateContent (if c = '\'' ∨ c = '"' then some c else none) r).map fun (a, b) => (c :: a, b)

theorem predicateContent_length {quote : Option Char} {cs a b : List Char}
    (h : predicateContent quote cs = some (a, b)) : b.length < cs.length := by
  induction cs generalizing quote a b with
  | nil => simp [predicateContent] at h
  | cons c r ih =>
    simp only [predicateContent] at h
    split at h
    · simp only [Option.map_eq_some_iff, Prod.mk.injEq, Prod.exists] at h
      obtain ⟨a', b', h', _, rfl⟩ := h
      have := ih h'
      simp only [List.length_cons]
      omega
    · split at h
      · simp only [Option.some.injEq, Prod.mk.injEq] at h
        obtain ⟨_, rfl⟩ := h
        simp
      · split at h
        · simp at h
        · simp only [Option.map_eq_some_iff, Prod.mk.injEq, Prod.exists] at h
          obtain ⟨a', b', h', _, rfl⟩ := h
          have := ih h'
          simp only [List.length_cons]
          omega

/-! ## Paths -/

/-- A step: a name and the content matches of its predicates. -/
structure Step where
  name : NodeName
  predicates : List FilterNode

/-- A comparison of a child with a literal (`parse_predicate`). -/
def predicate (cs : List Char) : Except PathFault FilterNode :=
  match cutChars '=' cs with
  | none => .error (.unsupportedPredicate (String.ofList cs))
  | some (name, literal) =>
    match name? (trimChars name), literal? (trimChars literal) with
    | some n, some l => .ok (.content n (String.ofList l))
    | _, _ => .error (.unsupportedPredicate (String.ofList cs))

/-- The predicates of a step. -/
def predicates (step : List Char) (cs : List Char) : Except PathFault (List FilterNode) :=
  match cs with
  | [] => .ok []
  | '[' :: r =>
    match h : predicateContent none r with
    | none => .error (.unterminated (String.ofList step))
    | some (content, rest) => do
      have : (dropBlanks rest).length < r.length :=
        Nat.lt_of_le_of_lt (List.dropWhile_suffix _).length_le (predicateContent_length h)
      let p ← predicate content
      let ps ← predicates step (dropBlanks rest)
      .ok (p :: ps)
  | cs => .error (.unsupportedPredicate (String.ofList cs))
termination_by cs.length
decreasing_by simp only [List.length_cons]; omega

/-- A step of a path (`parse_step`). -/
def step (path : List Char) (cs : List Char) : Except PathFault Step :=
  if cs.isEmpty then .error (.emptyStep (String.ofList path))
  else
    let name := if cs.contains '[' then trimChars (cs.takeWhile (· ≠ '[')) else cs
    match name? name with
    | none => .error (.invalidName (String.ofList name))
    | some n => do
      let ps ← predicates cs (cs.dropWhile (· ≠ '['))
      .ok ⟨n, ps⟩

/-- The filter node of a path: each step contains its predicates and the next step. -/
def compile : List Step → Option FilterNode
  | [] => none
  | s :: rest => some (.containment s.name (s.predicates ++ (compile rest).toList))

/-- The filter root of an absolute path (`parse_path`). -/
def path (cs : List Char) : Except PathFault FilterNode :=
  match cs with
  | '/' :: '/' :: _ => .error (.notAbsolute (String.ofList cs))
  | '/' :: relative => do
    let parts ← split '/' relative
    let steps ← parts.mapM fun part => step cs (trimChars part)
    match compile steps with
    | some f => .ok f
    | none => .error (.emptyStep (String.ofList cs))
  | _ => .error (.notAbsolute (String.ofList cs))

end LocationPath

/-- A union of location paths, with the filter it stands for. -/
structure PathFilter where
  expression : String
  filter : SubtreeFilter
  deriving Repr, Inhabited

namespace PathFilter

/-- Reads a union of paths, without the blanks around it (`parse`). -/
def parse (expression : String) : Except PathFault PathFilter := do
  let cs := Text.trimChars expression.toList
  if cs.isEmpty then .error .blank
  let parts ← LocationPath.split '|' cs
  let roots ← parts.mapM fun p => LocationPath.path (Text.trimChars p)
  .ok ⟨String.ofList cs, ⟨roots⟩⟩

/-- Does the filter that it stands for accept the body (`matches`)? -/
def accepts (f : PathFilter) (body : Node) : Bool := f.filter.accepts body

end PathFilter

end YangSubscriptions
