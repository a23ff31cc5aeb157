import YangSubscriptions.Json.Value
import YangSubscriptions.Text.Length

/-!
# Reading JSON text

A recursive reader over the characters that are left. A failure keeps its cause and the text at the
point of failure; `SyntaxError` turns that into a line and a column, both counted as an editor with
a byte-wise column would. Nesting stops at `maxDepth` levels.
-/

namespace YangSubscriptions.Json

inductive Cause where
  | endInList
  | endInObject
  | endInString
  | endInValue
  | colonExpected
  | listEndExpected
  | objectEndExpected
  | identifierExpected
  | valueExpected
  | invalidEscape
  | invalidNumber
  | numberOutOfRange
  | controlCharacter
  | nameExpected
  | loneSurrogate
  | pairExpected
  | trailingComma
  | trailingCharacters
  | nestedTooDeep
  deriving DecidableEq, Repr

def Cause.message : Cause → String
  | .endInList => "EOF while parsing a list"
  | .endInObject => "EOF while parsing an object"
  | .endInString => "EOF while parsing a string"
  | .endInValue => "EOF while parsing a value"
  | .colonExpected => "expected `:`"
  | .listEndExpected => "expected `,` or `]`"
  | .objectEndExpected => "expected `,` or `\x7d`"
  | .identifierExpected => "expected ident"
  | .valueExpected => "expected value"
  | .invalidEscape => "invalid escape"
  | .invalidNumber => "invalid number"
  | .numberOutOfRange => "number out of range"
  | .controlCharacter => "control character (\\u0000-\\u001F) found while parsing a string"
  | .nameExpected => "key must be a string"
  | .loneSurrogate => "lone leading surrogate in hex escape"
  | .pairExpected => "unexpected end of hex escape"
  | .trailingComma => "trailing comma"
  | .trailingCharacters => "trailing characters"
  | .nestedTooDeep => "recursion limit exceeded"

/-- Where reading stopped: the text that was left, and how many bytes of it were already taken. -/
structure Failure where
  cause : Cause
  rest : List Char
  taken : Nat
  deriving DecidableEq, Repr

/-- A failure at the next character, which counts as taken if there is one. -/
def Failure.here (cause : Cause) (rest : List Char) : Failure := ⟨cause, rest, if rest.isEmpty then 0 else 1⟩

/-- A strictly shorter text. -/
abbrev Rest (cs : List Char) := { r : List Char // r.length < cs.length }

/-- What was read, and a text that is shorter by what was taken. -/
abbrev Step (α : Type) (cs : List Char) := Except Failure (α × Rest cs)

/-- A text that is no longer. -/
abbrev Left (cs : List Char) := { r : List Char // r.length ≤ cs.length }

/-- How deep arrays and objects may nest, less one. -/
def maxDepth : Nat := 128

def isSpace (c : Char) : Bool := c = ' ' || c = '\n' || c = '\t' || c = '\x0d'

/-- The text from its first character that is not a blank. -/
def skipSpace : List Char → List Char
  | [] => []
  | c :: r => if isSpace c then skipSpace r else c :: r

theorem skipSpace_length_le (cs : List Char) : (skipSpace cs).length ≤ cs.length := by
  induction cs with
  | nil => simp [skipSpace]
  | cons c r ih =>
    simp only [skipSpace]
    split
    · simp only [List.length_cons]; omega
    · simp

theorem length_lt_of_skipSpace {cs r : List Char} {c : Char} (h : skipSpace cs = c :: r) : r.length < cs.length := by
  have := skipSpace_length_le cs
  rw [h, List.length_cons] at this
  omega

/-- The next character that is not a blank, and the text after it. -/
def next? (cs : List Char) : Option (Char × Rest cs) :=
  match h : skipSpace cs with
  | [] => none
  | c :: r => some (c, ⟨r, length_lt_of_skipSpace h⟩)

/-! ## Strings -/

def hexValue? (c : Char) : Option Nat :=
  if '0' ≤ c ∧ c ≤ '9' then some (c.toNat - 48)
  else if 'a' ≤ c ∧ c ≤ 'f' then some (c.toNat - 87)
  else if 'A' ≤ c ∧ c ≤ 'F' then some (c.toNat - 55)
  else none

/-- Four hexadecimal digits. -/
def hexCode : (cs : List Char) → Except Failure (Nat × Left cs)
  | a :: b :: c :: d :: r =>
    match hexValue? a, hexValue? b, hexValue? c, hexValue? d with
    | some w, some x, some y, some z =>
      .ok (w * 4096 + x * 256 + y * 16 + z, ⟨r, by simp only [List.length_cons]; omega⟩)
    | _, _, _, _ => .error ⟨.invalidEscape, a :: b :: c :: d :: r, 4⟩
  | cs => .error (if Text.byteLength cs < 4 then ⟨.endInString, [], 0⟩ else ⟨.invalidEscape, cs, 4⟩)

/-- The second half of a surrogate pair whose first half was read. -/
def lowSurrogate (high : Nat) : (cs : List Char) → Except Failure (Char × Left cs)
  | [] => .error ⟨.endInString, [], 0⟩
  | '\\' :: [] => .error ⟨.endInString, [], 0⟩
  | '\\' :: 'u' :: r => do
    let (low, ⟨r', h⟩) ← hexCode r
    if low < 0xDC00 ∨ 0xDFFF < low then .error ⟨.loneSurrogate, r', 0⟩
    else .ok (Char.ofNat (0x10000 + (high - 0xD800) * 1024 + (low - 0xDC00)),
      ⟨r', by simp only [List.length_cons]; omega⟩)
  | '\\' :: r => .error ⟨.pairExpected, r, 1⟩
  | c :: r => .error ⟨.pairExpected, c :: r, 1⟩

/-- What stands after a backslash. -/
def escape : (cs : List Char) → Step Char cs
  | [] => .error ⟨.endInString, [], 0⟩
  | 'u' :: r => do
    let (n, ⟨r', h⟩) ← hexCode r
    if 0xDC00 ≤ n ∧ n ≤ 0xDFFF then .error ⟨.loneSurrogate, r', 0⟩
    else if n < 0xD800 ∨ 0xDBFF < n then .ok (Char.ofNat n, ⟨r', by simp only [List.length_cons]; omega⟩)
    else
      let (c, ⟨r'', h'⟩) ← lowSurrogate n r'
      .ok (c, ⟨r'', by simp only [List.length_cons]; omega⟩)
  | c :: r =>
    let one (x : Char) : Step Char (c :: r) := .ok (x, ⟨r, by simp⟩)
    match c with
    | '"' => one '"'
    | '\\' => one '\\'
    | '/' => one '/'
    | 'b' => one '\x08'
    | 'f' => one '\x0c'
    | 'n' => one '\n'
    | 'r' => one '\x0d'
    | 't' => one '\t'
    | _ => .error ⟨.invalidEscape, c :: r, 1⟩

/-- The rest of a string whose opening quote was read. -/
def stringBody : (cs : List Char) → Step (List Char) cs
  | [] => .error ⟨.endInString, [], 0⟩
  | '"' :: r => .ok ([], ⟨r, by simp⟩)
  | '\\' :: r => do
    let (c, ⟨r', h⟩) ← escape r
    let (s, ⟨r'', h'⟩) ← stringBody r'
    .ok (c :: s, ⟨r'', by simp only [List.length_cons]; omega⟩)
  | c :: r =>
    if c.toNat < 32 then .error ⟨.controlCharacter, c :: r, 1⟩
    else do
      let (s, ⟨r', h⟩) ← stringBody r
      .ok (c :: s, ⟨r', by simp only [List.length_cons]; omega⟩)
termination_by cs => cs.length
decreasing_by all_goals simp only [List.length_cons]; omega

/-! ## Numbers -/

def digitValue (c : Char) : Nat := c.toNat - 48

/-- Takes digits as long as the number they form with `n` stays below `2 ^ 64`; gives the number, how
many digits were taken and the digits that were not. -/
def absorb (n : Nat) : List Char → Nat × Nat × List Char
  | [] => (n, 0, [])
  | c :: r =>
    if 10 * n + digitValue c < UInt64.size then
      let (m, taken, left) := absorb (10 * n + digitValue c) r
      (m, taken + 1, left)
    else (n, 0, c :: r)

/-- Divides by `10 ^ e`, in steps of at most `10 ^ 308`, each rounded. -/
def divideByTenPow (x : Binary64) (e : Nat) : Option Binary64 :=
  if e ≤ 308 then do (← Binary64.ofNat (Nat.pow 10 e)) |> x.div
  else if x.significand = 0 then some x
  else do
    let y ← x.div (← Binary64.ofNat (Nat.pow 10 308))
    divideByTenPow y (e - 308)
termination_by e

/-- The value nearest to `n` times or divided by the value nearest to the power of ten; none if it
is too large. -/
def scaledByTen (n : Nat) (e : Int) : Option Binary64 := do
  let x ← Binary64.ofNat n
  if e < 0 then divideByTenPow x e.natAbs
  else if e ≤ 308 then x.mul (← Binary64.ofNat (Nat.pow 10 e.toNat))
  else if n = 0 then some x
  else none

/-- The value with the sign that stood before it. -/
def signed (positive : Bool) (x : Binary64) : Number := .float (if positive then x else x.neg)

/-- A number from its digits and the exponent of the last of them, with the text after it. -/
def floatOf (positive : Bool) (n : Nat) (e : Int) (rest : Left cs) : Except Failure (Number × Left cs) :=
  match scaledByTen n e with
  | some x => .ok (signed positive x, rest)
  | none => .error ⟨.numberOutOfRange, rest.1, 0⟩

/-- The number that the digits form, or what is left of them once it has passed `2 ^ 31`. -/
def exponentValue (n : Nat) : List Char → Nat ⊕ List Char
  | [] => .inl n
  | c :: r => if 10 * n + digitValue c < 2147483648 then exponentValue (10 * n + digitValue c) r else .inr r

/-- The exponent within 32 bits. -/
def clampExponent (e : Int) : Int := max (-2147483648) (min 2147483647 e)

/-- An optional sign: is it up, and what follows. -/
def exponentSign : (cs : List Char) → Bool × Left cs
  | '+' :: r => (true, ⟨r, by simp⟩)
  | '-' :: r => (false, ⟨r, by simp⟩)
  | cs => (true, ⟨cs, Nat.le_refl _⟩)

/-- The failure for want of a digit. -/
def digitExpected (cs : List Char) : Failure :=
  if cs.isEmpty then ⟨.endInValue, [], 0⟩ else ⟨.invalidNumber, cs, 1⟩

/-- What follows the digits. -/
def afterDigits (cs : List Char) : Left cs := ⟨cs.dropWhile Char.isDigit, (List.dropWhile_suffix _).length_le⟩

/-- The exponent after its mark, for a number whose digits so far are `n` at the exponent `e`. -/
def exponentPart (positive : Bool) (n : Nat) (e : Int) (cs : List Char) : Except Failure (Number × Left cs) :=
  let (up, ⟨r, h⟩) := exponentSign cs
  let digits := r.takeWhile Char.isDigit
  let rest : Left cs := ⟨(afterDigits r).1, Nat.le_trans (afterDigits r).2 h⟩
  if digits.isEmpty then .error (digitExpected r)
  else
    match exponentValue 0 digits with
    | .inl k => floatOf positive n (clampExponent (if up then e + k else e - k)) rest
    | .inr left =>
      if n ≠ 0 ∧ up then .error ⟨.numberOutOfRange, left ++ rest.1, 0⟩
      else .ok (signed positive (Binary64.zero false), rest)

/-- The same text as what is left of a longer one. -/
def Left.widen {cs ds : List Char} (h : ds.length ≤ cs.length) (r : Except Failure (Number × Left ds)) :
    Except Failure (Number × Left cs) :=
  r.map fun (n, ⟨rest, h'⟩) => (n, ⟨rest, Nat.le_trans h' h⟩)

/-- The exponent, if its mark is next; else the number is complete. -/
def exponentOrEnd (positive : Bool) (n : Nat) (e : Int) : (cs : List Char) → Except Failure (Number × Left cs)
  | 'e' :: r => Left.widen (by simp) (exponentPart positive n e r)
  | 'E' :: r => Left.widen (by simp) (exponentPart positive n e r)
  | cs => floatOf positive n e ⟨cs, Nat.le_refl _⟩

/-- What may follow an integer part whose last `skipped` digits are not in `n`. -/
def numberTail (positive : Bool) (n : Nat) (skipped : Nat) : (cs : List Char) → Except Failure (Number × Left cs)
  | '.' :: r =>
    let digits := r.takeWhile Char.isDigit
    if digits.isEmpty then .error (digitExpected r)
    else
      let (m, taken, _) := absorb n digits
      Left.widen (Nat.le_trans (afterDigits r).2 (by simp)) (exponentOrEnd positive m (skipped - taken) (afterDigits r).1)
  | 'e' :: r => Left.widen (by simp) (exponentPart positive n skipped r)
  | 'E' :: r => Left.widen (by simp) (exponentPart positive n skipped r)
  | cs =>
    if skipped ≠ 0 then floatOf positive n skipped ⟨cs, Nat.le_refl _⟩
    else if positive then .ok (.int n, ⟨cs, Nat.le_refl _⟩)
    else if n = 0 ∨ 9223372036854775808 < n then floatOf false n 0 ⟨cs, Nat.le_refl _⟩
    else .ok (.int (-n), ⟨cs, Nat.le_refl _⟩)

/-- A number that follows its sign. -/
def unsignedNumber (positive : Bool) : (cs : List Char) → Step Number cs
  | [] => .error ⟨.endInValue, [], 0⟩
  | '0' :: r =>
    if (r.head?.any Char.isDigit) then .error ⟨.invalidNumber, r, 1⟩
    else do
      let (n, ⟨rest, h⟩) ← numberTail positive 0 0 r
      .ok (n, ⟨rest, by simp only [List.length_cons]; omega⟩)
  | c :: r =>
    if c.isDigit then do
      let (n, _, left) := absorb 0 (c :: r.takeWhile Char.isDigit)
      let (n, ⟨rest, h⟩) ← numberTail positive n left.length (afterDigits r).1
      .ok (n, ⟨rest, by have := (afterDigits r).2; simp only [List.length_cons]; omega⟩)
    else .error ⟨.invalidNumber, c :: r, 1⟩

/-! ## Values -/

/-- The rest of a keyword. -/
def keyword (v : Json) : List Char → (cs : List Char) → Except Failure (Json × Left cs)
  | [], cs => .ok (v, ⟨cs, Nat.le_refl _⟩)
  | _ :: _, [] => .error ⟨.endInValue, [], 0⟩
  | k :: ks, c :: r =>
    if c = k then do
      let (v, ⟨rest, h⟩) ← keyword v ks r
      .ok (v, ⟨rest, by simp only [List.length_cons]; omega⟩)
    else .error ⟨.identifierExpected, c :: r, 1⟩

mutual

/-- A value, with blanks before it. -/
def value (depth : Nat) (cs : List Char) : Step Json cs :=
  match next? cs with
  | none => .error ⟨.endInValue, [], 0⟩
  | some (c, ⟨r, hr⟩) =>
    match c with
    | 'n' => (keyword .null ['u', 'l', 'l'] r).map fun (v, ⟨r', _⟩) => (v, ⟨r', by omega⟩)
    | 't' => (keyword (.bool true) ['r', 'u', 'e'] r).map fun (v, ⟨r', _⟩) => (v, ⟨r', by omega⟩)
    | 'f' => (keyword (.bool false) ['a', 'l', 's', 'e'] r).map fun (v, ⟨r', _⟩) => (v, ⟨r', by omega⟩)
    | '-' => (unsignedNumber false r).map fun (n, ⟨r', _⟩) => (.number n, ⟨r', by omega⟩)
    | '"' => do
      let (s, ⟨r', h'⟩) ← stringBody r
      .ok (.string (String.ofList s), ⟨r', by omega⟩)
    | '[' =>
      if depth ≤ 1 then .error ⟨.nestedTooDeep, c :: r, 1⟩
      else
        match next? r with
        | none => .error ⟨.endInList, [], 0⟩
        | some (']', ⟨r', h'⟩) => .ok (.array [], ⟨r', by omega⟩)
        | some _ => do
          let (items, ⟨r', h'⟩) ← items (depth - 1) r
          .ok (.array items, ⟨r', by omega⟩)
    | '\x7b' =>
      if depth ≤ 1 then .error ⟨.nestedTooDeep, c :: r, 1⟩
      else
        match next? r with
        | none => .error ⟨.endInObject, [], 0⟩
        | some ('\x7d', ⟨r', h'⟩) => .ok (.object [], ⟨r', by omega⟩)
        | some ('"', ⟨r', h'⟩) => do
          let (members, ⟨r'', h''⟩) ← members (depth - 1) r'
          .ok (ofMembers members, ⟨r'', by omega⟩)
        | some (d, ⟨r', _⟩) => .error ⟨.nameExpected, d :: r', 1⟩
    | c =>
      if c.isDigit then
        (unsignedNumber true (c :: r)).map fun (n, ⟨r', h'⟩) =>
          (.number n, ⟨r', by rw [List.length_cons] at h'; omega⟩)
      else .error ⟨.valueExpected, c :: r, 1⟩
termination_by 3 * cs.length + 1
decreasing_by all_goals omega

/-- The items of an array up to its end. -/
def items (depth : Nat) (cs : List Char) : Step (List Json) cs := do
  let (v, ⟨r, h⟩) ← value depth cs
  match next? r with
  | none => .error ⟨.endInList, [], 0⟩
  | some (']', ⟨r', h'⟩) => .ok ([v], ⟨r', by omega⟩)
  | some (',', ⟨r', h'⟩) =>
    match next? r' with
    | none => .error ⟨.endInValue, [], 0⟩
    | some (']', ⟨r'', _⟩) => .error ⟨.trailingComma, ']' :: r'', 1⟩
    | some _ => do
      let (rest, ⟨r'', h''⟩) ← items depth r'
      .ok (v :: rest, ⟨r'', by omega⟩)
  | some (c, ⟨r', _⟩) => .error ⟨.listEndExpected, c :: r', 1⟩
termination_by 3 * cs.length + 2
decreasing_by all_goals omega

/-- The members of an object up to its end; the quote of the first name was read. -/
def members (depth : Nat) (cs : List Char) : Step (List (String × Json)) cs := do
  let (name, ⟨r, h⟩) ← stringBody cs
  match next? r with
  | none => .error ⟨.endInObject, [], 0⟩
  | some (':', ⟨r₁, h₁⟩) =>
    let (v, ⟨r₂, h₂⟩) ← value depth r₁
    match next? r₂ with
    | none => .error ⟨.endInObject, [], 0⟩
    | some ('\x7d', ⟨r₃, h₃⟩) => .ok ([(String.ofList name, v)], ⟨r₃, by omega⟩)
    | some (',', ⟨r₃, h₃⟩) =>
      match next? r₃ with
      | none => .error ⟨.endInValue, [], 0⟩
      | some ('"', ⟨r₄, h₄⟩) =>
        let (rest, ⟨r₅, h₅⟩) ← members depth r₄
        .ok ((String.ofList name, v) :: rest, ⟨r₅, by omega⟩)
      | some ('\x7d', ⟨r₄, _⟩) => .error ⟨.trailingComma, '\x7d' :: r₄, 1⟩
      | some (d, ⟨r₄, _⟩) => .error ⟨.nameExpected, d :: r₄, 1⟩
    | some (c, ⟨r₃, _⟩) => .error ⟨.objectEndExpected, c :: r₃, 1⟩
  | some (c, ⟨r', _⟩) => .error ⟨.colonExpected, c :: r', 1⟩
termination_by 3 * cs.length
decreasing_by all_goals omega

end

/-- A value that is the whole text, blanks aside. -/
def document (cs : List Char) : Except Failure Json := do
  let (v, ⟨r, _⟩) ← value maxDepth cs
  match next? r with
  | none => .ok v
  | some (c, ⟨r', _⟩) => .error ⟨.trailingCharacters, c :: r', 1⟩

/-! ## Positions -/

/-- A failure with the line, from one, and the bytes of that line before the point of failure. -/
structure SyntaxError where
  cause : Cause
  line : Nat
  column : Nat
  deriving DecidableEq, Repr

/-- Line and column after that many bytes. -/
def position (line column : Nat) : Nat → List Char → Nat × Nat
  | _, [] => (line, column)
  | bytes, c :: r =>
    if bytes = 0 then (line, column)
    else if c = '\n' then position (line + 1) 0 (bytes - 1) r
    else position line (column + min bytes c.utf8Size) (bytes - c.utf8Size) r

/-- Where in the text a failure is. -/
def Failure.locate (text : List Char) (f : Failure) : SyntaxError :=
  let (line, column) := position 1 0 (Text.byteLength text - Text.byteLength f.rest + f.taken) text
  ⟨f.cause, line, column⟩

def SyntaxError.message (e : SyntaxError) : String :=
  s!"{e.cause.message} at line {e.line} column {e.column}"

/-- Reads a document. -/
def parse (text : String) : Except SyntaxError Json :=
  (document text.toList).mapError (Failure.locate text.toList)

end YangSubscriptions.Json
