import YangSubscriptions.Rpc.Input

/-!
# Resources

The paths of a RESTCONF server: which handler a path leads to, and which data of the protocol's
module it names. A path is matched as it was sent; the variable part of it is percent-decoded after
that.
-/

namespace YangSubscriptions

/-- Does the part occur in the text? -/
def Text.occurs (part : List Char) : List Char → Bool
  | [] => part.isEmpty
  | c :: r => part.isPrefixOf (c :: r) || occurs part r

def Text.contains (s part : String) : Bool := occurs part.toList s.toList

/-- The text without the slashes around it. -/
def Text.trimSlashes (s : String) : String :=
  String.ofList (((s.toList.dropWhile (· = '/')).reverse.dropWhile (· = '/')).reverse)

/-- What follows a text that `s` begins with. -/
def Text.after? (beginning s : String) : Option String :=
  if beginning.toList.isPrefixOf s.toList then some (String.ofList (s.toList.drop beginning.length)) else none

/-! ## Percent-decoding -/

def hexDigit? (b : UInt8) : Option UInt8 :=
  if 48 ≤ b ∧ b ≤ 57 then some (b - 48)
  else if 65 ≤ b ∧ b ≤ 70 then some (b - 55)
  else if 97 ≤ b ∧ b ≤ 102 then some (b - 87)
  else none

/-- Bytes with each percent sign and two hexadecimal digits replaced by the byte they stand for. -/
def percentDecoded : List UInt8 → List UInt8
  | [] => []
  | 37 :: a :: b :: rest =>
    match hexDigit? a, hexDigit? b with
    | some x, some y => (16 * x + y) :: percentDecoded rest
    | _, _ => 37 :: percentDecoded (a :: b :: rest)
  | c :: rest => c :: percentDecoded rest

/-- The decoded text, if it is one. -/
def percentDecode? (s : String) : Option String :=
  String.fromUTF8? ⟨(percentDecoded s.toUTF8.toList).toArray⟩

/-! ## Routes -/

/-- Where a path leads, with the part of it that varies. -/
inductive Route where
  | operation (name : String)
  | stream (id : String)
  | data (path : String)
  deriving DecidableEq, Repr

namespace Route

/-- A single segment that is not empty. -/
def segment? (s : String) : Option String := if s = "" ∨ s.toList.contains '/' then none else some s

/-- The route of a path below a root, which has no slashes around it. -/
def ofPath? (root path : String) : Option Route := do
  let relative ← Text.after? (s!"/{root}/") path
  let operation := ((Text.after? "operations/" relative).bind segment?).map Route.operation
  let stream := ((Text.after? "streams/" relative).bind segment?).map Route.stream
  let data := ((Text.after? "data/" relative).filter (· ≠ "")).map Route.data
  (operation.or stream).or data

end Route

/-! ## Data resources -/

/-- The data of the protocol's module that a path can name (`DataResource`). -/
inductive DataResource where
  | streams
  | receivers (id : SubscriptionId)
  | filter (name : String)
  deriving DecidableEq, Repr

namespace DataResource

/-- The resource that a path of data names (`from_str`). -/
def ofPath (path : String) : Except Invalid DataResource :=
  let found := do
    let relative ← Text.after? (subscribedNotifications ++ ":") (Text.trimSlashes path)
    match (Text.pieces '/' relative.toList).map String.ofList with
    | ["streams"] => some streams
    | ["subscriptions", sub, "receivers"] => do
      let id ← Text.after? "subscription=" sub
      (SubscriptionId.parse? id.toList).map receivers
    | ["filters", entry] => do
      let name ← Text.after? "stream-filter=" entry
      if name = "" then none else some (filter name)
    | _ => none
  match found with
  | some r => .ok r
  | none => .error (.unknownResource path)

end DataResource

end YangSubscriptions
