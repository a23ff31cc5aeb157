import YangSubscriptions.Proofs.Filter.Literals
import YangSubscriptions.Proofs.Filter.Subtree

/-!
# The meaning of path expressions

What an expression selects, said of its paths as they are written (`Expression.Selects`): steps go down to children,
of a container or of one entry of a list, and predicates look at the values of children. The filter that the
reader makes of an expression with proper literals accepts what the expression selects something in
(`accepts_iff_selects`); it is compiled from the last step to the first, and so the induction goes. What is not such
an expression is rejected, but for the literals that are misread (`parse_eq_ok_iff`).
-/

namespace YangSubscriptions

namespace Expression

open Text LocationPath

variable {reads : Reads}

/-! ## What is selected -/

/-- Has a sibling of that name a value that reads as the literal? -/
def Comparison.Holds (c : Comparison reads) (siblings : List Node) : Prop :=
  ∃ node ∈ siblings, node.IsNamed c.name.name ∧ ∃ v ∈ node.values, v.text = String.ofList c.value

/-- Do these steps select something, the first of them at this node? The last step is satisfied by the node, unless it
has predicates; any other case is one of the siblings below. -/
def Path.SelectsFrom : Step reads → List (Step reads) → Node → Prop
  | s, [], node =>
    node.IsNamed s.name.name ∧
      (s.predicates = [] ∨ ∃ siblings ∈ node.instances, ∀ c ∈ s.predicates, c.Holds siblings)
  | s, t :: ts, node =>
    node.IsNamed s.name.name ∧
      ∃ siblings ∈ node.instances,
        (∀ c ∈ s.predicates, c.Holds siblings) ∧ ∃ child ∈ siblings, Path.SelectsFrom t ts child

def Path.Selects (p : Path reads) (body : Node) : Prop := SelectsFrom p.first p.more body

/-- Does some path of the union select something in the body? -/
def Selects (u : Expression reads) (body : Node) : Prop := ∃ p ∈ u.first :: u.more, p.Selects body

theorem Comparison.holds_iff {c : Comparison reads} {siblings : List Node} :
    (∃ node ∈ siblings, c.node.isSatisfied node = true) ↔ c.Holds siblings := by
  simp only [Comparison.node, FilterNode.content_isSatisfied_iff, Comparison.Holds]

/-- A compiled path is satisfied where the path selects something. -/
theorem Path.isSatisfied_rootOf (s : Step reads) (ss : List (Step reads)) (node : Node) :
    (rootOf s ss).isSatisfied node = true ↔ SelectsFrom s ss node := by
  induction ss generalizing s node with
  | nil =>
    rw [rootOf, FilterNode.containment_isSatisfied_iff, SelectsFrom, List.map_eq_nil_iff]
    simp only [List.forall_mem_map, Comparison.holds_iff]
  | cons t ts ih =>
    rw [rootOf, FilterNode.containment_isSatisfied_iff, SelectsFrom]
    refine and_congr_right fun _ => ?_
    have hne : s.predicates.map Comparison.node ++ [rootOf t ts] ≠ [] := List.concat_ne_nil _ _
    simp only [hne, false_or, List.forall_mem_append, List.forall_mem_map, Comparison.holds_iff,
      List.forall_mem_singleton, ih]

theorem accepts_filter_iff (u : Expression reads) (e : String) (body : Node) :
    PathFilter.accepts ⟨e, u.filter⟩ body = true ↔ u.Selects body := by
  have hroots : PathFilter.accepts ⟨e, u.filter⟩ body = (u.first :: u.more).any fun p => p.root.isSatisfied body := by
    rw [PathFilter.accepts, SubtreeFilter.accepts_eq, filter, List.any_map]
    rfl
  rw [hroots, List.any_eq_true]
  exact exists_congr fun p => and_congr_right fun _ => Path.isSatisfied_rootOf p.first p.more body

/-- An expression with proper literals is understood, and its filter accepts the bodies that it selects something
in. -/
theorem accepts_iff_selects (u : Expression Proper) :
    ∃ f, PathFilter.parse (String.ofList u.chars) = .ok f ∧ ∀ body, f.accepts body = true ↔ u.Selects body :=
  ⟨_, parse_chars (fun _ _ => Proper.readable) u String.toList_ofList, u.accepts_filter_iff _⟩

/-! ## What is rejected -/

/-- What is understood is a union of absolute paths, with predicates that compare one child with one literal, which is
proper or misread, and the filter is that of the union. All other expressions are rejected. -/
theorem understood_iff (e : String) (f : PathFilter) :
    PathFilter.parse e = .ok f ↔
      ∃ u : Expression fun l v => Proper l v ∨ Misread l v, e.toList = u.chars ∧ f = ⟨trim e, u.filter⟩ := by
  constructor
  · exact exists_of_parse fun _ _ => readable_iff.1
  · rintro ⟨u, he, rfl⟩
    exact parse_chars (fun _ _ => readable_iff.2) u he

theorem mem_chars_of_mem_literal {u : Expression reads} {s : Step reads} (hs : s ∈ u.first.first :: u.first.more)
    {c : Comparison reads} (hc : c ∈ s.predicates) {d : Char} (hd : d ∈ c.literal) : d ∈ u.chars := by
  have hcomparison : d ∈ c.chars := by simp [Comparison.chars, Comparison.content, hd]
  have hstep : d ∈ s.chars := by
    simp only [Step.chars, Step.core, List.mem_append, List.mem_flatMap]
    exact .inl (.inr (.inr ⟨c, hc, hcomparison⟩))
  have hbody : d ∈ u.first.body := by
    rcases List.mem_cons.1 hs with rfl | hs
    · exact List.mem_append_left _ hstep
    · exact List.mem_append_right _ (List.mem_flatMap.2 ⟨s, hs, List.mem_cons_of_mem _ hstep⟩)
  have hpath : d ∈ u.first.chars := List.mem_append_right _ (List.mem_cons_of_mem _ hbody)
  exact List.mem_append_left _ hpath

/-- A proper literal with a single quote in its value is in double quotes. -/
theorem Proper.mem_of_mem {l v : List Char} (h : Proper l v) (hv : '\'' ∈ v) : '"' ∈ l := by
  cases h with
  | quoted q hq text htext =>
    rcases hq with rfl | rfl
    · exact absurd hv htext
    · exact List.mem_cons_self
  | number _ h => exact absurd (isNumeral_of_isNumber (isNumber_iff.2 (.inl h)) hv) (by decide)

/-- Two comparisons in one pair of brackets, as one literal that runs on. -/
def twoComparisons : Expression Readable where
  first :=
    { before := .empty
      first :=
        { before := .empty
          name := ⟨.bare "a", nofun, by decide⟩
          predicates :=
            [{ before := .empty
               beforeName := .empty
               name := ⟨.bare "b", nofun, by decide⟩
               afterName := .empty
               beforeLiteral := .empty
               literal := "'x' or c='y'".toList
               value := "x' or c='y".toList
               read := ⟨by decide, by decide, ⟨by simp [isBlank, blanks], by simp [isBlank, blanks]⟩⟩
               afterLiteral := .empty }]
          behind := .empty }
      more := [] }
  more := []

/-- They are taken for a comparison with the text from the first quote to the last, though no expression with proper
literals is written like that. -/
theorem twoComparisons_understood :
    PathFilter.parse "/a[b='x' or c='y']" =
        .ok ⟨"/a[b='x' or c='y']", ⟨[.containment (.bare "a") [.content (.bare "b") "x' or c='y"]]⟩⟩ ∧
      ¬∃ u : Expression Proper, "/a[b='x' or c='y']".toList = u.chars := by
  have hparse := parse_chars (fun _ _ h => h) twoComparisons (e := "/a[b='x' or c='y']") (by decide)
  refine ⟨hparse, ?_⟩
  rintro ⟨u, hu⟩
  have hproper := parse_chars (fun _ _ => Proper.readable) u hu
  have hroots : (u.first :: u.more).map Path.root = twoComparisons.filter.roots :=
    congrArg (fun f : PathFilter => f.filter.roots) (Except.ok.inj (hproper.symm.trans hparse))
  have hroot : Path.rootOf u.first.first u.first.more = .containment (.bare "a") [.content (.bare "b") "x' or c='y"] :=
    (List.cons.inj hroots).1
  have hdouble : '"' ∉ u.chars := by
    rw [← hu]
    decide
  cases hmore : u.first.more with
  | nil =>
    rw [hmore, Path.rootOf] at hroot
    obtain ⟨-, hnodes⟩ := FilterNode.containment.inj hroot
    cases hpredicates : u.first.first.predicates with
    | nil =>
      rw [hpredicates] at hnodes
      cases hnodes
    | cons c cs =>
      rw [hpredicates] at hnodes
      obtain ⟨-, htext⟩ := FilterNode.content.inj (List.cons.inj hnodes).1
      have hvalue : '\'' ∈ c.value := by
        rw [← String.toList_ofList (l := c.value), htext]
        decide
      exact hdouble (mem_chars_of_mem_literal List.mem_cons_self (hpredicates ▸ List.mem_cons_self)
        (c.read.mem_of_mem hvalue))
  | cons t ts =>
    -- a further step would be a containment in the place of the content
    rw [hmore, Path.rootOf] at hroot
    obtain ⟨-, hnodes⟩ := FilterNode.containment.inj hroot
    have hlast := congrArg List.getLast? hnodes
    rw [List.getLast?_concat] at hlast
    have hcontent := Option.some.inj hlast
    cases ts <;> cases hcontent

end Expression

end YangSubscriptions
