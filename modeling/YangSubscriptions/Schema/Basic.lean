import YangSubscriptions.Data.Name

/-!
# Schemas

The modules a server knows, with their XML namespaces, and the notifications they define. A schema
node without a module belongs to the module of its parent.
-/

namespace YangSubscriptions

/-- A module with its XML namespace (`ModuleInfo`). -/
structure Module where
  name : String
  xmlns : String
  revision : Option String
  deriving DecidableEq, Repr, Inhabited

/-- What a schema node holds (`SchemaNodeKind`). -/
inductive SchemaKind where
  | container
  | list
  | leaf
  | leafList
  deriving DecidableEq, Repr, Inhabited

def SchemaKind.name : SchemaKind → String
  | container => "container"
  | list => "list"
  | leaf => "leaf"
  | leafList => "leaf-list"

/-- Does the kind hold a value rather than other nodes? -/
def SchemaKind.isLeaf : SchemaKind → Bool
  | leaf | leafList => true
  | container | list => false

/-- A node that the schema allows, with those it allows below. -/
inductive SchemaNode where
  | mk (module : Option String) (name : String) (kind : SchemaKind) (keys : List String) (children : List SchemaNode)
  deriving Repr, Inhabited

namespace SchemaNode

def module : SchemaNode → Option String
  | mk m _ _ _ _ => m

def name : SchemaNode → String
  | mk _ n _ _ _ => n

def kind : SchemaNode → SchemaKind
  | mk _ _ k _ _ => k

def keys : SchemaNode → List String
  | mk _ _ _ ks _ => ks

def children : SchemaNode → List SchemaNode
  | mk _ _ _ _ cs => cs

/-- The name of a node below a parent of that module (`node_name`). -/
def qualifiedName (n : SchemaNode) (parent : Option String) : NodeName := ⟨n.module.or parent, n.name⟩

/-- The first child that a name matches, with its module; `own` is the module of the node itself (`child`). -/
def child? (n : SchemaNode) (own : Option String) (name : NodeName) : Option (SchemaNode × Option String) :=
  (n.children.find? fun c => name.Matches (c.qualifiedName own)).map fun c => (c, c.module.or own)

end SchemaNode

/-- The module of the subscription protocol itself. -/
def subscribedNotifications : String := "ietf-subscribed-notifications"

def subscribedNotificationsXmlns : String := "urn:ietf:params:xml:ns:yang:ietf-subscribed-notifications"

def restconfModule : String := "ietf-restconf"

def restconfXmlns : String := "urn:ietf:params:xml:ns:yang:ietf-restconf"

/-- The namespace of the envelope of a notification. -/
def notificationXmlns : String := "urn:ietf:params:xml:ns:netconf:notification:1.0"

/-- The modules that every schema knows, with their namespaces (`well_known_namespace`). -/
def wellKnown : List (String × String) :=
  [(subscribedNotifications, subscribedNotificationsXmlns), (restconfModule, restconfXmlns)]

/-- The modules and notifications that a server knows (`SchemaContext`). -/
structure Schema where
  modules : List Module
  notifications : List SchemaNode
  deriving Repr, Inhabited

namespace Schema

def empty : Schema := ⟨[], []⟩

def module? (s : Schema) (name : String) : Option Module := s.modules.find? (·.name = name)

/-- The XML namespace of a module (`namespace_of`). -/
def xmlnsOf? (s : Schema) (module : String) : Option String :=
  ((s.module? module).map (·.xmlns)).or ((wellKnown.find? (·.1 = module)).map (·.2))

/-- The module of an XML namespace (`module_by_namespace`). -/
def moduleOf? (s : Schema) (xmlns : String) : Option String :=
  ((s.modules.find? (·.xmlns = xmlns)).map (·.name)).or ((wellKnown.find? (·.2 = xmlns)).map (·.1))

/-- The first notification that a name matches (`notification`). -/
def notification? (s : Schema) (name : NodeName) : Option SchemaNode :=
  s.notifications.find? fun n => name.Matches (n.qualifiedName none)

/-- What a name finds below a node with its module, or else among the notifications. -/
def below? (s : Schema) (parent : Option (SchemaNode × Option String)) (name : NodeName) :
    Option (SchemaNode × Option String) :=
  match parent with
  | none => (s.notification? name).map fun n => (n, n.module)
  | some (n, own) => n.child? own name

end Schema

end YangSubscriptions
