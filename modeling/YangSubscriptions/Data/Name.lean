import YangSubscriptions.Text.Blank

/-!
# Names of data nodes

A local name, with the module it is qualified by where one is written. A name without a module
belongs to the module of its parent, and in a comparison stands for that name in any module.
-/

namespace YangSubscriptions

/-- A name as it is written, with its module or without. -/
structure NodeName where
  module : Option String
  name : String
  deriving DecidableEq, Repr, Inhabited

namespace NodeName

def bare (name : String) : NodeName := ⟨none, name⟩

def qualified (module name : String) : NodeName := ⟨some module, name⟩

/-- Reads `module:name` or `name`, cut at the first colon (`from_str`). -/
def parse (s : String) : NodeName :=
  match Text.cut? ':' s with
  | some (module, name) => qualified module name
  | none => bare s

/-- The name as it is read, and as errors show it. -/
def render (n : NodeName) : String :=
  match n.module with
  | some module => module ++ ":" ++ n.name
  | none => n.name

/-- Equal local names, and equal modules where both name one (`matches`). -/
def Matches (m n : NodeName) : Bool :=
  m.name = n.name &&
    match m.module, n.module with
    | some a, some b => a = b
    | _, _ => true

theorem matches_comm (m n : NodeName) : m.Matches n = n.Matches m := by
  have h : decide (m.name = n.name) = decide (n.name = m.name) := by simp only [eq_comm]
  unfold Matches
  rw [h]
  cases m.module <;> cases n.module <;> simp only [eq_comm]

/-- The module of a node whose parent belongs to `parent` (`effective_module`). -/
def effectiveModule (n : NodeName) (parent : Option String) : Option String := n.module.or parent

/-- Names by module, those without one first, and then by local name. -/
def order (m n : NodeName) : Ordering :=
  match m.module, n.module with
  | none, some _ => .lt
  | some _, none => .gt
  | none, none => compare m.name n.name
  | some a, some b => (compare a b).then (compare m.name n.name)

end NodeName

end YangSubscriptions
