import YangSubscriptions.Json.Record

/-!
# Stream configurations

How a stream is set up: its name, its description and how many notifications it keeps for replay.
-/

namespace YangSubscriptions

open Json (Decoder Fields)

/-- One stream of the configuration. Without a replay size it keeps nothing. -/
structure StreamConfig where
  name : String
  description : Option String
  replaySize : Nat
  deriving DecidableEq, Repr, Inhabited

namespace StreamConfig

def toJson (c : StreamConfig) : Json :=
  .object ([("name", .string c.name)] ++ Json.optionalMember "description" (c.description.map .string) ++
    [("replay_buffer_size", .int c.replaySize)])

def decode : Decoder StreamConfig :=
  Json.record "struct StreamConfig" ["name", "description", "replay_buffer_size"]
    ((Fields.pure mk).also (.required "name" .string) |>.also
      (.defaulted "description" (.option .string) none) |>.also
      (.defaulted "replay_buffer_size" (.natural "usize") 0))

end StreamConfig

end YangSubscriptions
