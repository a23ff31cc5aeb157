import YangSubscriptions.Data.Node

/-!
# The modules of a data tree

A node belongs to the module that is written with its name or else to that of its parent. `nodes` lists the nodes of a
tree with the module that each of them belongs to, and `explicit` writes this module with every name.
-/

namespace YangSubscriptions

/-- The name with the module that it stands for below a parent of that module. -/
def NodeName.resolve (n : NodeName) (parent : Option String) : NodeName := ⟨n.effectiveModule parent, n.name⟩

@[simp] theorem NodeName.effectiveModule_resolve (n : NodeName) (parent : Option String) :
    (n.resolve parent).effectiveModule parent = n.effectiveModule parent := by
  cases h : n.module <;> simp [resolve, effectiveModule, h]

namespace Node

/-- The groups of siblings below a node. -/
def families : Node → List (List Node)
  | container _ cs => [cs]
  | list _ es => es
  | _ => []

mutual

/-- The nodes of a tree below a parent of that module, each with the module it belongs to. -/
def nodes (parent : Option String) : Node → List (Option String × Node)
  | .container n cs => (n.effectiveModule parent, .container n cs) :: listNodes (n.effectiveModule parent) cs
  | .list n es => (n.effectiveModule parent, .list n es) :: entryNodes (n.effectiveModule parent) es
  | .leaf n v => [(n.effectiveModule parent, .leaf n v)]
  | .leafList n vs => [(n.effectiveModule parent, .leafList n vs)]

def listNodes (module : Option String) : List Node → List (Option String × Node)
  | [] => []
  | n :: ns => nodes module n ++ listNodes module ns

def entryNodes (module : Option String) : List (List Node) → List (Option String × Node)
  | [] => []
  | e :: es => listNodes module e ++ entryNodes module es

end

mutual

/-- The tree with the module of every node written with its name. A list without entries becomes a leaf-list, from
which its encodings do not tell it apart. -/
def explicit (parent : Option String) : Node → Node
  | .container n cs => .container (n.resolve parent) (explicitList (n.effectiveModule parent) cs)
  | .list n [] => .leafList (n.resolve parent) []
  | .list n (e :: es) => .list (n.resolve parent) (explicitEntries (n.effectiveModule parent) (e :: es))
  | .leaf n v => .leaf (n.resolve parent) v
  | .leafList n vs => .leafList (n.resolve parent) vs

def explicitList (module : Option String) : List Node → List Node
  | [] => []
  | n :: ns => explicit module n :: explicitList module ns

def explicitEntries (module : Option String) : List (List Node) → List (List Node)
  | [] => []
  | e :: es => explicitList module e :: explicitEntries module es

end

@[simp] theorem name_explicit (parent : Option String) (n : Node) :
    (n.explicit parent).name = n.name.resolve parent := by
  fun_cases explicit parent n <;> rfl

theorem mem_listNodes {module : Option String} {d : Option String × Node} {cs : List Node} :
    d ∈ listNodes module cs ↔ ∃ c ∈ cs, d ∈ c.nodes module := by
  induction cs <;> simp_all [listNodes]

theorem self_mem_nodes (parent : Option String) (n : Node) : (n.name.effectiveModule parent, n) ∈ n.nodes parent := by
  cases n <;> simp [nodes, name]

end Node

end YangSubscriptions
