import YangSubscriptions.Json.Record
import YangSubscriptions.Schema.Basic

/-!
# Schemas as JSON

What is absent or empty is left out in writing and taken as such in reading.
-/

namespace YangSubscriptions

open Json (Mismatch Decoder Fields)

namespace Module

def toJson (m : Module) : Json :=
  .object ([("name", .string m.name), ("namespace", .string m.xmlns)] ++
    Json.optionalMember "revision" (m.revision.map .string))

def decode : Decoder Module :=
  Json.record "struct ModuleInfo" ["name", "namespace", "revision"]
    (((Fields.pure mk).also (.required "name" .string) |>.also (.required "namespace" .string)) |>.also
      (.defaulted "revision" (.option .string) none))

end Module

namespace SchemaNode

mutual

/-- A schema node with all that is below it. -/
def toJson : SchemaNode → Json
  | mk module name kind keys children =>
    .object (Json.optionalMember "module" (module.map .string) ++
      [("name", .string name), ("kind", .string kind.name)] ++
      (if keys.isEmpty then [] else [("keys", .array (keys.map .string))]) ++
      (if children.isEmpty then [] else [("children", .array (listToJson children))]))

def listToJson : List SchemaNode → List Json
  | [] => []
  | n :: ns => n.toJson :: listToJson ns

end

def kindDecoder : Decoder SchemaKind :=
  .variant [("container", .container), ("list", .list), ("leaf", .leaf), ("leaf-list", .leafList)]

/-- A node whose fields are still being read. -/
structure Draft where
  module : Option String
  name : Option String
  kind : Option SchemaKind
  keys : List String
  children : List SchemaNode

def Draft.empty : Draft := ⟨none, none, none, [], []⟩

/-- The fields of a schema node, in the order in which an array gives them. -/
def fieldNames : List String := ["module", "name", "kind", "keys", "children"]

/-- The finished node; `missing` tells how a field is missed. -/
def Draft.finish (d : Draft) (missing : String → Nat → Mismatch) : Except Mismatch SchemaNode :=
  match d.name, d.kind with
  | none, _ => .error (missing "name" 1)
  | some _, none => .error (missing "kind" 2)
  | some name, some kind => .ok (.mk d.module name kind d.keys d.children)

mutual

/-- Reads a schema node with all that is below it. -/
def decode : Json → Except Mismatch SchemaNode
  | .object members => do (← decodeMembers .empty members).finish fun field _ => .missing field
  | .array items => do
    let d ← decodeItems .empty fieldNames items
    let n ← d.finish fun _ i => .length i "struct SchemaNode with 5 elements"
    if items.length > 5 then .error (.length items.length "fewer elements in array") else .ok n
  | v => .error (.type v "struct SchemaNode")

/-- Reads the fields that members give, one after the other. -/
def decodeMembers (d : Draft) : List (String × Json) → Except Mismatch Draft
  | [] => .ok d
  | (name, v) :: rest => do decodeMembers (← decodeField d name v) rest

/-- Reads fields by position. -/
def decodeItems (d : Draft) : List String → List Json → Except Mismatch Draft
  | name :: names, v :: rest => do decodeItems (← decodeField d name v) names rest
  | _, _ => .ok d

/-- Reads one field of a draft. A name that is no field's is passed over. -/
def decodeField (d : Draft) (name : String) (v : Json) : Except Mismatch Draft :=
  if name = "module" then do .ok { d with module := ← Decoder.option .string v }
  else if name = "name" then do .ok { d with name := some (← Decoder.string v) }
  else if name = "kind" then do .ok { d with kind := some (← kindDecoder v) }
  else if name = "keys" then do .ok { d with keys := ← Decoder.list .string v }
  else if name = "children" then
    match v with
    | .array items => do .ok { d with children := ← decodeList items }
    | v => .error (.type v "a sequence")
  else .ok d

def decodeList : List Json → Except Mismatch (List SchemaNode)
  | [] => .ok []
  | v :: vs => do
    let n ← decode v
    .ok (n :: (← decodeList vs))

end

end SchemaNode

namespace Schema

def toJson (s : Schema) : Json :=
  .object [("modules", .array (s.modules.map Module.toJson)),
    ("notifications", .array (SchemaNode.listToJson s.notifications))]

def decode : Decoder Schema :=
  Json.record "struct SchemaContext" ["modules", "notifications"]
    ((Fields.pure mk).also (.defaulted "modules" (.list Module.decode) []) |>.also
      (.defaulted "notifications" (.list SchemaNode.decode) []))

end Schema

end YangSubscriptions
