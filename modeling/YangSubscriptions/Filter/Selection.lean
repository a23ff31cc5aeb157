import YangSubscriptions.Filter.Subtree

/-!
# Selections

What a filter keeps of a node, as positions: of children, of list entries or of values. Selections
of one node are united position by position, and the kept part is cut out at the end, so that it
keeps the order of the document.
-/

namespace YangSubscriptions

/-- A selection of one node; the kept positions ascend. -/
inductive Selection where
  | whole
  | children (kept : List (Nat × Selection))
  | entries (kept : List (Nat × Selection))
  | values (kept : List Nat)
  deriving Repr, Inhabited

/-- Selections by ascending position, each position once. -/
abbrev Positions := List (Nat × Selection)

namespace Selection

/-- The union of two ascending lists of positions. -/
def mergeValues : List Nat → List Nat → List Nat
  | [], r => r
  | i :: l, r => r.takeWhile (· < i) ++ i :: mergeValues l (r.dropWhile (· ≤ i))

mutual

/-- What either selection keeps (`union`). Of the mixed shapes only those with `whole` come up. -/
def union : Selection → Selection → Selection
  | .children l, .children r => .children (mergePositions l r)
  | .entries l, .entries r => .entries (mergePositions l r)
  | .values l, .values r => .values (mergeValues l r)
  | _, _ => .whole

/-- The union of selections position by position (`merge_positions`). -/
def mergePositions : Positions → Positions → Positions
  | [], r => r
  | (i, a) :: l, r =>
    r.takeWhile (·.1 < i) ++
      (i, match r.find? (·.1 = i) with
        | some (_, b) => union a b
        | none => a) :: mergePositions l (r.dropWhile (·.1 ≤ i))

end

end Selection

namespace FilterNode

/-- The positions of the values that read as `text`. -/
def keptValues (text : String) (values : List LeafValue) : List Nat :=
  (values.zipIdx.filter (·.1.text = text)).map (·.2)

/-- A selection of some positions, or none of nothing. -/
def ofKept (select : List α → Selection) (kept : List α) : Option Selection :=
  if kept.isEmpty then none else some (select kept)

mutual

/-- What a filter node keeps of a node, if the node satisfies it (`select`). -/
def select : FilterNode → Node → Option Selection
  | .content n t, node =>
    if n.Matches node.name then
      match node with
      | .leaf _ v => if v.text = t then some .whole else none
      | .leafList _ vs => ofKept .values (keptValues t vs)
      | .container _ _ | .list _ _ => none
    else none
  | .containment n fs, node =>
    if n.Matches node.name then
      if fs.isEmpty then some .whole
      else
        match node with
        | .leaf _ _ | .leafList _ _ => none
        | .container _ cs => selectSiblings fs (fs.all isContent) cs
        | .list _ es =>
          ofKept .entries (es.zipIdx.filterMap fun (e, i) => (selectSiblings fs (fs.all isContent) e).map (i, ·))
    else none

/-- What filter nodes keep of siblings, all of which must be satisfied by one of them. The siblings
are kept whole if `contentOnly`. -/
def selectSiblings (fs : List FilterNode) (contentOnly : Bool) (cs : List Node) : Option Selection :=
  (selectAll fs cs).map fun kept => if contentOnly then .whole else .children kept

/-- The union of what each filter node keeps of the siblings (`select_children`). -/
def selectAll : List FilterNode → List Node → Option (Positions)
  | [], _ => some []
  | f :: fs, cs =>
    let kept := cs.zipIdx.filterMap fun (c, i) => (select f c).map (i, ·)
    if kept.isEmpty then none else (selectAll fs cs).map (Selection.mergePositions kept)

end

end FilterNode

namespace Node

/-- The items at the kept positions. -/
def pick (kept : List Nat) (items : List α) : List α := kept.filterMap (items[·]?)

mutual

/-- The kept part of a node (`materialize`). -/
def cut : Selection → Node → Node
  | .children kept, .container n cs => .container n (cutChildren kept cs)
  | .entries kept, .list n es => .list n (cutEntries kept es)
  | .values kept, .leafList n vs => .leafList n (pick kept vs)
  | _, node => node

/-- The kept children, each cut in turn (`materialize_children`). -/
def cutChildren : Positions → List Node → List Node
  | [], _ => []
  | (i, s) :: kept, cs =>
    match cs[i]? with
    | some c => cut s c :: cutChildren kept cs
    | none => cutChildren kept cs

/-- The kept entries of a list, each cut in turn. -/
def cutEntries : Positions → List (List Node) → List (List Node)
  | [], _ => []
  | (i, s) :: kept, es =>
    match es[i]? with
    | some e => cutEntry s e :: cutEntries kept es
    | none => cutEntries kept es

/-- The kept part of one entry (`materialize_entry`). -/
def cutEntry : Selection → List Node → List Node
  | .children kept, e => cutChildren kept e
  | _, e => e

end

end Node

namespace SubtreeFilter

/-- Is some root satisfied, or none there (`matches`)? -/
def accepts (f : SubtreeFilter) (body : Node) : Bool :=
  f.isEmpty || f.roots.any fun r => (r.select body).isSome

/-- The union of what the satisfied roots keep. -/
def selection? (f : SubtreeFilter) (body : Node) : Option Selection :=
  match f.roots.filterMap (·.select body) with
  | [] => none
  | s :: ss => some (ss.foldl Selection.union s)

/-- The kept part of a body that is accepted (`prune`). -/
def prune (f : SubtreeFilter) (body : Node) : Option Node :=
  if f.isEmpty then some body else (f.selection? body).map fun s => Node.cut s body

end SubtreeFilter

end YangSubscriptions
