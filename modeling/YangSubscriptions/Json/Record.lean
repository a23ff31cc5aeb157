import YangSubscriptions.Json.Value
import YangSubscriptions.Text.Quoted

/-!
# Records from JSON

A record is read from an object, by member name, or from an array, by position. Of the faults in it
the one that stands first in the text is reported, and a field that is missing only when all fields
that are there are in order.
-/

namespace YangSubscriptions.Json

/-- Why a value does not have the form that is expected. -/
inductive Mismatch where
  | type (found : Json) (expected : String)
  | value (found expected : String)
  | length (found : Nat) (expected : String)
  | missing (field : String)
  | unknownVariant (found : String) (known : List String)
  | other (message : String)
  deriving Repr

/-- What kind of value it is, with a scalar's text. -/
def kindText : Json → String
  | .null => "null"
  | .bool true => "boolean `true`"
  | .bool false => "boolean `false`"
  | .number (.int n) => s!"integer `{n}`"
  | .number (.float x) => s!"floating point `{String.ofList x.render}`"
  | .string s => s!"string {Text.quoted s}"
  | .array _ => "sequence"
  | .object _ => "map"

/-- The names that were expected, in words. -/
def alternatives : List String → String
  | [a] => s!"`{a}`"
  | [a, b] => s!"`{a}` or `{b}`"
  | as => "one of " ++ String.intercalate ", " (as.map fun a => s!"`{a}`")

def Mismatch.message : Mismatch → String
  | .type found expected => s!"invalid type: {found.kindText}, expected {expected}"
  | .value found expected => s!"invalid value: {found}, expected {expected}"
  | .length found expected => s!"invalid length {found}, expected {expected}"
  | .missing field => s!"missing field `{field}`"
  | .unknownVariant found known => s!"unknown variant `{found}`, expected {alternatives known}"
  | .other message => message

/-- What reads values of one form. -/
abbrev Decoder (α : Type) := Json → Except Mismatch α

namespace Decoder

def string : Decoder String
  | .string s => .ok s
  | v => .error (.type v "a string")

/-- An integer from 0 to below `2 ^ 64`; `expected` names its type. -/
def natural (expected : String) : Decoder Nat
  | .number (.int n) =>
    if 0 ≤ n then .ok n.toNat else .error (.value s!"integer `{n}`" expected)
  | v => .error (.type v expected)

def option (decode : Decoder α) : Decoder (Option α)
  | .null => .ok none
  | v => (decode v).map some

def list (decode : Decoder α) : Decoder (List α)
  | .array items => items.mapM decode
  | v => .error (.type v "a sequence")

/-- One of some names, given as a text or as the only member of an object, with `null` in it. -/
def variant (known : List (String × α)) : Decoder α := fun v => do
  let (name, content) ← match v with
    | .string s => .ok (s, Json.null)
    | .object [(n, c)] => .ok (n, c)
    | .object _ => .error (.value "map" "map with a single key")
    | v => .error (.type v "string or map")
  match known.find? (·.1 = name) with
  | none => .error (.unknownVariant name (known.map (·.1)))
  | some (_, a) =>
    match content with
    | .null => .ok a
    | c => .error (.type c "unit")

end Decoder

/-! ## Fields -/

/-- The fields that a value gives: names with values in the order of the text. `positional` tells an
array from an object. -/
structure Rows where
  title : String
  fields : List String
  rows : List (String × Json)
  positional : Bool

/-- What is read from the fields; a fault carries its place in the text. -/
abbrev Fields (α : Type) := Rows → Except (Nat × Mismatch) α

namespace Fields

def pure (a : α) : Fields α := fun _ => .ok a

/-- Both, or the fault that comes first. -/
def also (f : Fields (α → β)) (x : Fields α) : Fields β := fun rows =>
  match f rows, x rows with
  | .ok g, .ok a => .ok (g a)
  | .error e, .ok _ => .error e
  | .ok _, .error e => .error e
  | .error (i, e), .error (j, e') => .error (if i ≤ j then (i, e) else (j, e'))

/-- A field that is there, with its place. -/
def row? (name : String) (rows : Rows) : Option (Nat × Json) :=
  ((rows.rows.zipIdx.find? (·.1.1 = name)).map fun (p, i) => (i, p.2))

/-- A field that need not be there. -/
def optional (name : String) (decode : Decoder α) : Fields (Option α) := fun rows =>
  match row? name rows with
  | none => .ok none
  | some (i, v) =>
    match decode v with
    | .ok a => .ok (some a)
    | .error e => .error (i, e)

/-- A field with a value for when it is not there. -/
def defaulted (name : String) (decode : Decoder α) (default : α) : Fields α := fun rows =>
  (optional name decode rows).map fun o => o.getD default

/-- The fault of a field that is not there, after all those of fields that are. -/
def absent (name : String) (rows : Rows) : Nat × Mismatch :=
  let i := rows.fields.idxOf name
  let count := rows.fields.length
  let plural := if count = 1 then "" else "s"
  (rows.rows.length + i,
    if rows.positional then .length i s!"{rows.title} with {count} element{plural}" else .missing name)

def required (name : String) (decode : Decoder α) : Fields α := fun rows =>
  match optional name decode rows with
  | .ok (some a) => .ok a
  | .ok none => .error (absent name rows)
  | .error e => .error e

/-- A field that may be `null`; a member may also be left out, an item of an array not. -/
def nullable (name : String) (decode : Decoder α) : Fields (Option α) := fun rows =>
  match optional name (.option decode) rows with
  | .ok (some a) => .ok a
  | .ok none => if rows.positional then .error (absent name rows) else .ok none
  | .error e => .error e

end Fields

/-- Reads a record with these fields. -/
def record (title : String) (fields : List String) (read : Fields α) : Decoder α
  | .object members =>
    (read ⟨title, fields, members, false⟩).mapError (·.2)
  | .array items => do
    let a ← (read ⟨title, fields, fields.zip items, true⟩).mapError (·.2)
    if fields.length < items.length then .error (.length items.length "fewer elements in array") else .ok a
  | v => .error (.type v title)

/-! ## Writing -/

/-- A member that is left out when there is no value. -/
def optionalMember (name : String) (value : Option Json) : List (String × Json) :=
  (value.map (name, ·)).toList

end YangSubscriptions.Json
