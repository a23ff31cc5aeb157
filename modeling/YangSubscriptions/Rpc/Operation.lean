import YangSubscriptions.Rpc.Error

/-!
# Operations

The four operations of the protocol. Names in requests may carry the prefix of the protocol's module.
-/

namespace YangSubscriptions

/-- A name without the prefix of the protocol's module (`strip_module`). -/
def unprefixed (name : String) : String :=
  let label := (subscribedNotifications ++ ":").toList
  if label.isPrefixOf name.toList then String.ofList (name.toList.drop label.length) else name

/-- The operations of the protocol (`RpcOperation`). -/
inductive Operation where
  | establish
  | modify
  | delete
  | kill
  deriving DecidableEq, Repr

namespace Operation

def name : Operation → String
  | establish => "establish-subscription"
  | modify => "modify-subscription"
  | delete => "delete-subscription"
  | kill => "kill-subscription"

def all : List Operation := [establish, modify, delete, kill]

/-- The operation of a name, with or without the prefix (`from_str`). -/
def parse (text : String) : Except SubscriptionError Operation :=
  match all.find? (·.name = unprefixed text) with
  | some op => .ok op
  | none => .error (.notSupported text)

end Operation

end YangSubscriptions
