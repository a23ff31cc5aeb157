import YangSubscriptions.Proofs.Except
import YangSubscriptions.Proofs.Filter.Splitting

/-!
# The language of path expressions

Expressions as they are written: unions of absolute paths, with the blanks between their parts, and with literals of
which a parameter says how they read (`Expression reads`). A value of these types is a text together with all that
makes it well formed. The reader understands each of them, for literals that it can read (`parse_chars`), and it
understands nothing else (`exists_of_parse`); either is proved part by part, from the names up to the union.
-/

namespace YangSubscriptions

namespace LocationPath

open Text

/-! ## Names -/

theorem isIdentifierPart_of_isIdentifierStart {c : Char} (h : isIdentifierStart c = true) :
    isIdentifierPart c = true := by
  simp only [isIdentifierStart, Bool.or_eq_true, decide_eq_true_eq] at h
  simp only [isIdentifierPart, Char.isAlphanum, Bool.or_eq_true, decide_eq_true_eq]
  rcases h with h | h
  · exact .inl (.inl (.inl (.inl h)))
  · exact .inl (.inl (.inr h))

/-- The characters of names. -/
def isNamePart (c : Char) : Bool := isIdentifierPart c || c = ':'

theorem isBlank_of_isNamePart {c : Char} (h : isNamePart c = true) : isBlank c = false :=
  isBlank_eq_false (by decide) h

theorem ne_of_isNamePart {c d : Char} (h : isNamePart c = true) (hd : isNamePart d = false) : c ≠ d := by
  rintro rfl
  rw [h] at hd
  cases hd

theorem isNamePart_of_isIdentifier {cs : List Char} (h : isIdentifier cs = true) {c : Char} (hc : c ∈ cs) :
    isIdentifierPart c = true := by
  cases cs with
  | nil => cases h
  | cons d r =>
    rw [isIdentifier, Bool.and_eq_true, List.all_eq_true] at h
    rcases List.mem_cons.1 hc with rfl | hc
    · exact isIdentifierPart_of_isIdentifierStart h.1
    · exact h.2 c hc

end LocationPath

namespace Expression

open Text LocationPath

/-- Blanks, where there may be some. -/
structure Gap where
  chars : List Char
  blank : Blank chars

def Gap.empty : Gap := ⟨[], .nil⟩

/-- A name that a step or a comparison may have. -/
structure ChildName where
  name : NodeName
  prefixed : ∀ module, name.module = some module → isIdentifier module.toList = true
  identifier : isIdentifier name.name.toList = true

namespace ChildName

def chars (n : ChildName) : List Char := n.name.render.toList

theorem isNamePart_of_mem (n : ChildName) {c : Char} (hc : c ∈ n.chars) : isNamePart c = true := by
  obtain ⟨⟨module, name⟩, hprefixed, hidentifier⟩ := n
  have hpart : ∀ cs, isIdentifier cs = true → c ∈ cs → isNamePart c = true := fun cs hcs hmem => by
    rw [isNamePart, isNamePart_of_isIdentifier hcs hmem, Bool.true_or]
  cases module with
  | none => exact hpart _ hidentifier hc
  | some module =>
    simp only [chars, NodeName.render, String.toList_append, List.mem_append] at hc
    rcases hc with (hc | hc) | hc
    · exact hpart _ (hprefixed module rfl) hc
    · rw [List.mem_singleton.1 hc]
      rfl
    · exact hpart _ hidentifier hc

theorem chars_ne_nil (n : ChildName) : n.chars ≠ [] := by
  obtain ⟨⟨module, name⟩, hprefixed, hidentifier⟩ := n
  intro hnil
  have hname : name.toList = [] := by
    cases module with
    | none => exact hnil
    | some module =>
      simp only [chars, NodeName.render, String.toList_append] at hnil
      exact (List.append_eq_nil_iff.1 hnil).2
  rw [show (NodeName.mk module name).name.toList = name.toList from rfl, hname] at hidentifier
  cases hidentifier

theorem plain (n : ChildName) : Plain n.chars := fun _ hc =>
  have h := n.isNamePart_of_mem hc
  ⟨ne_of_isNamePart h rfl, ne_of_isNamePart h rfl, ne_of_isNamePart h rfl, ne_of_isNamePart h rfl⟩

theorem not_mem (n : ChildName) {d : Char} (hd : isNamePart d = false) : d ∉ n.chars := fun hc =>
  ne_of_isNamePart (n.isNamePart_of_mem hc) hd rfl

theorem trimmed (n : ChildName) : Trimmed n.chars where
  head _ hc := isBlank_of_isNamePart (n.isNamePart_of_mem (List.mem_of_mem_head? hc))
  last _ hc := isBlank_of_isNamePart (n.isNamePart_of_mem (List.mem_of_mem_getLast? hc))

/-- A name is read back from its characters. -/
theorem name?_chars (n : ChildName) : name? n.chars = some n.name := by
  obtain ⟨⟨module, name⟩, hprefixed, hidentifier⟩ := n
  have hcolon : ∀ cs, isIdentifier cs = true → ':' ∉ cs := fun cs hcs hmem => by
    cases (isNamePart_of_isIdentifier hcs hmem)
  cases module with
  | none =>
    have hcut : cutChars ':' name.toList = none := cutChars_eq_none.2 (hcolon _ hidentifier)
    simp only [chars, NodeName.render, name?, hcut, hidentifier, if_true, String.ofList_toList]
  | some module =>
    have hcut : cutChars ':' (module.toList ++ ':' :: name.toList) = some (module.toList, name.toList) :=
      cutChars_append (hcolon _ (hprefixed module rfl)) _
    have hchars : chars ⟨⟨some module, name⟩, hprefixed, hidentifier⟩ = module.toList ++ ':' :: name.toList := by
      simp [chars, NodeName.render, String.toList_append]
    rw [hchars, name?, hcut]
    have hmodule := hprefixed module rfl
    have hname : isIdentifier name.toList = true := hidentifier
    simp only [hmodule, hname, Bool.and_self, if_true, String.ofList_toList]

end ChildName

/-- What reads as a name is one. -/
theorem exists_of_name? {cs : List Char} {n : NodeName} (h : name? cs = some n) :
    ∃ m : ChildName, m.chars = cs ∧ m.name = n := by
  rw [name?] at h
  split at h
  · rename_i module name hcut
    split at h
    · rename_i hboth
      obtain ⟨rfl, -⟩ := cutChars_eq_some hcut
      rw [Bool.and_eq_true] at hboth
      cases h
      have hmodule : isIdentifier (String.ofList module).toList = true := by rw [String.toList_ofList, hboth.1]
      have hname : isIdentifier (String.ofList name).toList = true := by rw [String.toList_ofList, hboth.2]
      refine ⟨⟨⟨some (String.ofList module), String.ofList name⟩, fun m hm => ?_, hname⟩, ?_, rfl⟩
      · exact Option.some.inj hm ▸ hmodule
      · simp [ChildName.chars, NodeName.render, String.toList_append]
    · cases h
  · split at h
    · rename_i hidentifier
      cases h
      have hname : isIdentifier (String.ofList cs).toList = true := by rw [String.toList_ofList, hidentifier]
      exact ⟨⟨⟨none, String.ofList cs⟩, nofun, hname⟩, String.toList_ofList, rfl⟩
    · cases h

/-! ## Comparisons -/

/-- How a text reads: does it read as this value? -/
abbrev Reads : Type := List Char → List Char → Prop

/-- What the reader takes a literal for. Nothing in it ends the predicate that it stands in. -/
structure Readable (literal value : List Char) : Prop where
  value : literal? literal = some value
  closed : scan none literal = some none
  trimmed : Trimmed literal

/-- A comparison in brackets, with the blanks in front of them. -/
structure Comparison (reads : Reads) where
  before : Gap
  beforeName : Gap
  name : ChildName
  afterName : Gap
  beforeLiteral : Gap
  literal : List Char
  value : List Char
  read : reads literal value
  afterLiteral : Gap

variable {reads : Reads}

namespace Comparison

def content (c : Comparison reads) : List Char :=
  c.beforeName.chars ++ c.name.chars ++ c.afterName.chars ++
    '=' :: (c.beforeLiteral.chars ++ c.literal ++ c.afterLiteral.chars)

def chars (c : Comparison reads) : List Char := c.before.chars ++ '[' :: (c.content ++ [']'])

def node (c : Comparison reads) : FilterNode := .content c.name.name (String.ofList c.value)

end Comparison

/-- Blanks are not seen by the scanners. -/
theorem Gap.plain (g : Gap) : Plain g.chars := by
  intro c hc
  have hblank := g.blank c hc
  refine ⟨?_, ?_, ?_, ?_⟩ <;>
  · rintro rfl
    exact absurd hblank (by decide)

theorem Gap.not_mem (g : Gap) {d : Char} (hd : isBlank d = false) : d ∉ g.chars := by
  intro hmem
  rw [g.blank d hmem] at hd
  cases hd

/-- The blanks around a trimmed text are trimmed away. -/
theorem trimChars_gaps {cs : List Char} (h : Trimmed cs) (g g' : Gap) : trimChars (g.chars ++ cs ++ g'.chars) = cs :=
  trimChars_eq_iff.2 ⟨h, g.chars, g'.chars, g.blank, g'.blank, rfl⟩

theorem scan_padded (g g' : Gap) (cs : List Char) : scan none (g.chars ++ cs ++ g'.chars) = some none ↔
    scan none cs = some none := by
  rw [scan_append, scan_append, g.plain.scan, Option.bind_some]
  constructor
  · intro h
    obtain ⟨q, hq, h⟩ := Option.bind_eq_some_iff.1 h
    cases q with
    | none => exact hq
    | some q =>
      have hnot : q ∉ g'.chars := g'.not_mem <| by
        rcases quote_of_scan (fun _ hc => by cases hc) hq q rfl with rfl | rfl <;> decide
      rw [scan_of_not_mem hnot] at h
      cases h
  · intro h
    rw [h, Option.bind_some, g'.plain.scan]

namespace Comparison

theorem scan_content {c : Comparison reads} (h : scan none c.literal = some none) :
    scan none c.content = some none := by
  have hname : scan none (c.beforeName.chars ++ c.name.chars ++ c.afterName.chars) = some none :=
    (scan_padded ..).2 c.name.plain.scan
  rw [content, scan_append, hname]
  exact (scan_padded ..).2 h

end Comparison

/-- A comparison is understood between its brackets. -/
theorem predicate_content (hreads : ∀ l v, reads l v → Readable l v) (c : Comparison reads) :
    predicate c.content = .ok c.node := by
  have hread := hreads _ _ c.read
  have hequals : '=' ∉ c.beforeName.chars ++ c.name.chars ++ c.afterName.chars := by
    rw [List.mem_append, List.mem_append, not_or, not_or]
    exact ⟨⟨c.beforeName.not_mem rfl, c.name.not_mem rfl⟩, c.afterName.not_mem rfl⟩
  have hname : name? (trimChars (c.beforeName.chars ++ c.name.chars ++ c.afterName.chars)) = some c.name.name := by
    rw [trimChars_gaps c.name.trimmed c.beforeName c.afterName, c.name.name?_chars]
  have hliteral : literal? (trimChars (c.beforeLiteral.chars ++ c.literal ++ c.afterLiteral.chars)) = some c.value := by
    rw [trimChars_gaps hread.trimmed c.beforeLiteral c.afterLiteral, hread.value]
  rw [predicate, Comparison.content, cutChars_append hequals]
  dsimp only
  rw [hname, hliteral]
  rfl

/-- What is understood between brackets is a comparison, whatever the blanks in front of them. -/
theorem exists_of_predicate (hreads : ∀ l v, Readable l v → reads l v) {cs : List Char} {f : FilterNode}
    (h : predicate cs = .ok f) (hscan : scan none cs = some none) (before : Gap) :
    ∃ c : Comparison reads, c.before = before ∧ c.content = cs ∧ c.node = f := by
  rw [predicate] at h
  split at h
  · cases h
  · rename_i name literal hcut
    obtain ⟨rfl, -⟩ := cutChars_eq_some hcut
    split at h
    · rename_i n l hname hliteral
      cases h
      obtain ⟨m, hm, rfl⟩ := exists_of_name? hname
      obtain ⟨g₁, g₂, hg₁, hg₂, hnames⟩ := exists_trimChars name
      obtain ⟨htrimmed, g₃, g₄, hg₃, hg₄, hliterals⟩ := trimChars_eq_iff.1 (Eq.refl (trimChars literal))
      have hclosed : scan none (trimChars literal) = some none := by
        have hplain : scan none name = some none := by
          rw [hnames, ← hm]
          exact (scan_padded ⟨g₁, hg₁⟩ ⟨g₂, hg₂⟩ _).2 m.plain.scan
        rw [scan_append, hplain, hliterals] at hscan
        exact (scan_padded ⟨g₃, hg₃⟩ ⟨g₄, hg₄⟩ _).1 hscan
      refine ⟨⟨before, ⟨g₁, hg₁⟩, m, ⟨g₂, hg₂⟩, ⟨g₃, hg₃⟩, trimChars literal, l, ?_, ⟨g₄, hg₄⟩⟩, rfl, ?_, rfl⟩
      · exact hreads _ _ ⟨hliteral, hclosed, htrimmed⟩
      · show g₁ ++ m.chars ++ g₂ ++ '=' :: (g₃ ++ trimChars literal ++ g₄) = name ++ '=' :: literal
        rw [hm, ← hnames, ← hliterals]
    · cases h

/-! ## Steps -/

/-- A name with predicates. -/
structure Step (reads : Reads) where
  before : Gap
  name : ChildName
  predicates : List (Comparison reads)
  behind : Gap

namespace Step

def core (s : Step reads) : List Char := s.name.chars ++ s.predicates.flatMap Comparison.chars

def chars (s : Step reads) : List Char := s.before.chars ++ s.core ++ s.behind.chars

def compiled (s : Step reads) : LocationPath.Step := ⟨s.name.name, s.predicates.map Comparison.node⟩

end Step

theorem predicates_bracket {part r content rest : List Char} (h : predicateContent none r = some (content, rest)) :
    predicates part ('[' :: r) = (do
      let p ← predicate content
      let ps ← predicates part (dropBlanks rest)
      .ok (p :: ps)) := by
  rw [predicates]
  split
  · rename_i hnone
    rw [h] at hnone
    cases hnone
  · rename_i content' rest' hsome
    rw [h] at hsome
    cases hsome
    rfl

/-- So are several, one behind the other. -/
theorem predicates_chars (hreads : ∀ l v, reads l v → Readable l v) (part : List Char) (cs : List (Comparison reads))
    (g : Gap) :
    predicates part (dropBlanks (cs.flatMap Comparison.chars ++ g.chars)) = .ok (cs.map Comparison.node) := by
  induction cs with
  | nil =>
    rw [List.flatMap_nil, List.nil_append, dropBlanks_eq_nil.2 g.blank, predicates]
    rfl
  | cons c cs ih =>
    have hbracket : dropBlanks ((c :: cs).flatMap Comparison.chars ++ g.chars) =
        '[' :: (c.content ++ ']' :: (cs.flatMap Comparison.chars ++ g.chars)) := by
      rw [List.flatMap_cons, Comparison.chars, List.append_assoc, List.append_assoc, dropBlanks_append c.before.blank]
      simp only [List.cons_append, List.append_assoc, List.nil_append]
      exact dropBlanks_cons rfl _
    have hcontent : predicateContent none (c.content ++ ']' :: (cs.flatMap Comparison.chars ++ g.chars)) =
        some (c.content, cs.flatMap Comparison.chars ++ g.chars) :=
      predicateContent_eq_some.2 ⟨rfl, c.scan_content (hreads _ _ c.read).closed⟩
    rw [hbracket, predicates_bracket hcontent, predicate_content hreads, ih]
    rfl

theorem exists_of_predicates (hreads : ∀ l v, Readable l v → reads l v) {part cs : List Char} {fs : List FilterNode}
    (h : predicates part (dropBlanks cs) = .ok fs) :
    ∃ (comparisons : List (Comparison reads)) (g : Gap),
      comparisons.flatMap Comparison.chars ++ g.chars = cs ∧ comparisons.map Comparison.node = fs := by
  obtain ⟨g, hg, hcs⟩ := exists_dropBlanks cs
  rw [predicates.eq_def] at h
  split at h
  · rename_i hnil
    cases h
    exact ⟨[], ⟨cs, dropBlanks_eq_nil.1 hnil⟩, rfl, rfl⟩
  · rename_i r hbracket
    split at h
    · cases h
    · rename_i content rest hcontent
      obtain ⟨rfl, hscan⟩ := predicateContent_eq_some.1 hcontent
      obtain ⟨f, hfirst, h⟩ := exists_ok_of_bind h
      obtain ⟨others, hothers, h⟩ := exists_ok_of_bind h
      cases h
      have hlt : rest.length < cs.length := by
        rw [hcs, hbracket]
        simp only [List.length_append, List.length_cons]
        omega
      obtain ⟨c, hbefore, rfl, rfl⟩ := exists_of_predicate hreads hfirst hscan ⟨g, hg⟩
      obtain ⟨comparisons, g', rfl, rfl⟩ := exists_of_predicates hreads hothers
      refine ⟨c :: comparisons, g', ?_, rfl⟩
      rw [hcs, hbracket, List.flatMap_cons, Comparison.chars, hbefore]
      simp only [List.cons_append, List.append_assoc, List.nil_append]
  · cases h
termination_by cs.length

/-- A step is its name, up to the first bracket, and its predicates, from there on. -/
theorem step_eq_ok {path core : List Char} (hcore : Trimmed core) {s : LocationPath.Step} :
    step path core = .ok s ↔
      name? (trimChars (core.takeWhile (· ≠ '['))) = some s.name ∧
        predicates core (core.dropWhile (· ≠ '[')) = .ok s.predicates := by
  have hname : (if core.contains '[' then trimChars (core.takeWhile (· ≠ '[')) else core) =
      trimChars (core.takeWhile (· ≠ '[')) := by
    split
    · rfl
    · rename_i hbracket
      have hall : ∀ c ∈ core, decide (c ≠ '[') = true := by
        rintro c hc
        refine decide_eq_true ?_
        rintro rfl
        exact hbracket (List.contains_iff_mem.2 hc)
      rw [List.takeWhile_eq_self_iff.2 hall, trimChars_eq_self hcore]
  rw [step]
  cases core with
  | nil => exact ⟨nofun, fun h => by cases h.1⟩
  | cons c r =>
    rw [if_neg (by simp), hname]
    dsimp only
    constructor
    · intro h
      split at h
      · cases h
      · rename_i n hn
        obtain ⟨ps, hps, h⟩ := exists_ok_of_bind h
        cases h
        exact ⟨hn, hps⟩
    · rintro ⟨hn, hps⟩
      rw [hn, hps]
      rfl

theorem getLast?_flatMap_chars (cs : List (Comparison reads)) :
    ∀ c ∈ (cs.flatMap Comparison.chars).getLast?, c = ']' := by
  induction cs with
  | nil => nofun
  | cons c cs ih =>
    intro d hd
    rw [List.flatMap_cons, List.getLast?_append] at hd
    cases hrest : (cs.flatMap Comparison.chars).getLast? with
    | some e =>
      rw [hrest] at hd
      exact ih d (hrest.trans hd)
    | none =>
      have hchars : c.chars = (c.before.chars ++ '[' :: c.content) ++ [']'] := by
        rw [Comparison.chars, List.append_assoc, List.cons_append]
      rw [hrest, hchars, List.getLast?_append, Option.none_or] at hd
      exact (Option.some.inj hd).symm

theorem head?_dropBlanks_flatMap_chars (cs : List (Comparison reads)) :
    ∀ c ∈ (dropBlanks (cs.flatMap Comparison.chars)).head?, c = '[' := by
  cases cs with
  | nil => nofun
  | cons c cs =>
    intro d hd
    rw [List.flatMap_cons, Comparison.chars, List.append_assoc, dropBlanks_append c.before.blank, List.cons_append,
      dropBlanks_cons rfl] at hd
    exact (Option.some.inj hd).symm

theorem Step.trimmed_core (s : Step reads) : Trimmed s.core where
  head c hc := by
    rw [core, List.head?_append, List.head?_eq_some_head s.name.chars_ne_nil, Option.some_or,
      ← List.head?_eq_some_head s.name.chars_ne_nil] at hc
    exact s.name.trimmed.head c hc
  last c hc := by
    rw [core, List.getLast?_append] at hc
    cases hlast : (s.predicates.flatMap Comparison.chars).getLast? with
    | some d =>
      rw [hlast] at hc
      rw [getLast?_flatMap_chars s.predicates c (hlast.trans hc)]
      rfl
    | none =>
      rw [hlast] at hc
      exact s.name.trimmed.last c hc

/-- What stands before the first bracket. -/
theorem takeWhile_bracket {a d : List Char} (ha : '[' ∉ a) (hd : ∀ c ∈ d.head?, c = '[') :
    (a ++ d).takeWhile (· ≠ '[') = a ∧ (a ++ d).dropWhile (· ≠ '[') = d := by
  have hall : ∀ c ∈ a, decide (c ≠ '[') = true := by
    rintro c hc
    refine decide_eq_true ?_
    rintro rfl
    exact ha hc
  rw [List.takeWhile_append_of_pos hall, List.dropWhile_append_of_pos hall]
  cases d with
  | nil => exact ⟨List.append_nil a, rfl⟩
  | cons c d =>
    obtain rfl := hd c rfl
    exact ⟨List.append_nil a, rfl⟩

/-- A step is understood, with or without predicates. -/
theorem step_chars (hreads : ∀ l v, reads l v → Readable l v) (path : List Char) (s : Step reads) :
    step path (trimChars s.chars) = .ok s.compiled := by
  have hcore : trimChars s.chars = s.core := trimChars_gaps s.trimmed_core s.before s.behind
  obtain ⟨g, hg, hpredicates⟩ := exists_dropBlanks (s.predicates.flatMap Comparison.chars)
  have hsplit : s.core = (s.name.chars ++ g) ++ dropBlanks (s.predicates.flatMap Comparison.chars) := by
    rw [Step.core, List.append_assoc, ← hpredicates]
  have hbracket : '[' ∉ s.name.chars ++ g := by
    rw [List.mem_append, not_or]
    exact ⟨s.name.not_mem rfl, Gap.not_mem ⟨g, hg⟩ rfl⟩
  obtain ⟨htake, hdrop⟩ := takeWhile_bracket hbracket (head?_dropBlanks_flatMap_chars s.predicates)
  rw [hcore, step_eq_ok s.trimmed_core, hsplit, htake, hdrop]
  constructor
  · have hname : trimChars (s.name.chars ++ g) = s.name.chars := trimChars_gaps s.name.trimmed .empty ⟨g, hg⟩
    rw [hname, s.name.name?_chars]
    rfl
  · have hread := predicates_chars hreads (s.name.chars ++ g ++ dropBlanks (s.predicates.flatMap Comparison.chars))
      s.predicates .empty
    rwa [show Gap.empty.chars = [] from rfl, List.append_nil] at hread

/-- What is understood as a step is one. -/
theorem exists_of_step (hreads : ∀ l v, Readable l v → reads l v) {path cs : List Char} {s : LocationPath.Step}
    (h : step path (trimChars cs) = .ok s) : ∃ t : Step reads, t.chars = cs ∧ t.compiled = s := by
  obtain ⟨hcore, g, g', hg, hg', hcs⟩ := trimChars_eq_iff.1 (Eq.refl (trimChars cs))
  obtain ⟨hname, hpredicates⟩ := (step_eq_ok hcore).1 h
  obtain ⟨m, hm, hmname⟩ := exists_of_name? hname
  obtain ⟨g₁, g₂, hg₁, hg₂, htake⟩ := exists_trimChars ((trimChars cs).takeWhile (· ≠ '['))
  have hbracket : ∀ c ∈ ((trimChars cs).dropWhile (· ≠ '[')).head?, isBlank c = false := by
    intro c hc
    have hstop := List.head?_dropWhile_not (· ≠ '[') (trimChars cs)
    rw [Option.mem_def.1 hc] at hstop
    obtain rfl : c = '[' := by simpa using hstop
    rfl
  rw [← dropBlanks_eq_self hbracket, ← dropBlanks_append hg₂] at hpredicates
  obtain ⟨comparisons, g₃, hcomparisons, hnodes⟩ := exists_of_predicates hreads hpredicates
  refine ⟨⟨⟨g ++ g₁, hg.append hg₁⟩, m, comparisons, ⟨g₃.chars ++ g', g₃.blank.append hg'⟩⟩, ?_, ?_⟩
  · calc (g ++ g₁) ++ (m.chars ++ comparisons.flatMap Comparison.chars) ++ (g₃.chars ++ g')
        = g ++ (g₁ ++ m.chars ++ (comparisons.flatMap Comparison.chars ++ g₃.chars)) ++ g' := by
          simp only [List.append_assoc]
      _ = g ++ (g₁ ++ m.chars ++ g₂ ++ (trimChars cs).dropWhile (· ≠ '[')) ++ g' := by
          rw [hcomparisons]
          simp only [List.append_assoc]
      _ = g ++ trimChars cs ++ g' := by rw [hm, ← htake, List.takeWhile_append_dropWhile]
      _ = cs := hcs.symm
  · rw [Step.compiled, hmname, hnodes]

/-! ## Whole parts -/

section Whole

variable {separator : Char}

theorem Gap.whole (g : Gap) (hsep : isBlank separator = false) : Whole separator g.chars :=
  g.plain.whole (g.not_mem hsep)

theorem Comparison.whole (hreads : ∀ l v, reads l v → Readable l v) (c : Comparison reads)
    (hsep : isBlank separator = false) (hbracket : separator ≠ '[') : Whole separator c.chars :=
  (c.before.whole hsep).append (whole_bracketed (scan_content (hreads _ _ c.read).closed) hbracket)

theorem Step.whole (hreads : ∀ l v, reads l v → Readable l v) (s : Step reads) (hname : isNamePart separator = false)
    (hsep : isBlank separator = false) (hbracket : separator ≠ '[') : Whole separator s.chars := by
  have hcore : Whole separator s.core := (s.name.plain.whole (s.name.not_mem hname)).append
    (.flatMap fun c _ => c.whole hreads hsep hbracket)
  exact ((s.before.whole hsep).append hcore).append (s.behind.whole hsep)

end Whole

/-! ## Parts in turn -/

/-- If all that is understood of the parts is of one kind, the parts together are a list of that kind. -/
theorem exists_of_mapM_eq_ok {ε α β γ : Type} {read : α → Except ε β} {text : γ → α} {result : γ → β}
    (hread : ∀ {a b}, read a = .ok b → ∃ x, text x = a ∧ result x = b) {as : List α} {bs : List β}
    (h : as.mapM read = .ok bs) : ∃ xs : List γ, xs.map text = as ∧ xs.map result = bs := by
  induction as generalizing bs with
  | nil =>
    cases h
    exact ⟨[], rfl, rfl⟩
  | cons a as ih =>
    rw [List.mapM_cons] at h
    obtain ⟨b, hb, h⟩ := exists_ok_of_bind h
    obtain ⟨bs', hbs, h⟩ := exists_ok_of_bind h
    cases h
    obtain ⟨x, rfl, rfl⟩ := hread hb
    obtain ⟨xs, rfl, rfl⟩ := ih hbs
    exact ⟨x :: xs, rfl, rfl⟩

/-- What is split is read part by part, without the blanks around the parts. -/
theorem bind_split_eq_ok {separator : Char} {cs : List Char} {β : Type} {read : List Char → Except PathFault β}
    {bs : List β} :
    (split separator cs >>= fun ps => ps.mapM fun p => read (trimChars p)) = .ok bs ↔
      ∃ ts, parts separator cs = some ts ∧ ts.mapM read = .ok bs := by
  rw [split, parts]
  cases hsplit : splitFrom separator outside cs with
  | none =>
    rw [show splitFrom separator ⟨0, none⟩ cs = none from hsplit]
    constructor
    · intro h
      cases h
    · rintro ⟨ts, hts, -⟩
      cases hts
  | some ps =>
    rw [show splitFrom separator ⟨0, none⟩ cs = some ps from hsplit]
    have hmap : (ps.map trimChars).mapM read = ps.mapM fun p => read (trimChars p) := List.mapM_map ..
    constructor
    · intro h
      exact ⟨ps.map trimChars, rfl, hmap.trans h⟩
    · rintro ⟨ts, hts, h⟩
      obtain rfl := Option.some.inj hts
      exact hmap.symm.trans h

/-! ## Paths -/

/-- An absolute path of child steps. -/
structure Path (reads : Reads) where
  before : Gap
  first : Step reads
  more : List (Step reads)

namespace Path

def body (p : Path reads) : List Char := p.first.chars ++ p.more.flatMap ('/' :: ·.chars)

def chars (p : Path reads) : List Char := p.before.chars ++ '/' :: p.body

/-- A step with its predicates and the next step as the children of a filter node. -/
def rootOf : Step reads → List (Step reads) → FilterNode
  | s, [] => .containment s.name.name (s.predicates.map Comparison.node)
  | s, t :: ts => .containment s.name.name (s.predicates.map Comparison.node ++ [rootOf t ts])

def root (p : Path reads) : FilterNode := rootOf p.first p.more

theorem compile_eq (s : Step reads) (ss : List (Step reads)) :
    compile ((s :: ss).map Step.compiled) = some (rootOf s ss) := by
  induction ss generalizing s with
  | nil =>
    rw [List.map_cons, List.map_nil, compile, compile, rootOf]
    simp [Step.compiled]
  | cons t ts ih =>
    rw [List.map_cons, compile, ih, rootOf]
    rfl

/-- A path is cut at its slashes, and not within brackets or quotes. -/
theorem parts_body (hreads : ∀ l v, reads l v → Readable l v) (p : Path reads) :
    parts '/' p.body = some ((p.first :: p.more).map fun s => trimChars s.chars) := by
  refine parts_eq_some.2 ⟨p.first.chars, p.more.map Step.chars, ?_, ?_, ?_⟩
  · rw [body, List.flatMap_map]
  · rw [← List.map_cons, List.forall_mem_map]
    exact fun s _ => s.whole hreads rfl rfl (by decide)
  · rw [← List.map_cons, List.map_map]
    rfl

end Path

theorem path_eq_ok {relative : List Char} {f : FilterNode} :
    path ('/' :: relative) = .ok f ↔
      ∃ ts steps, parts '/' relative = some ts ∧ ts.mapM (step ('/' :: relative)) = .ok steps ∧
        compile steps = some f := by
  by_cases hdescendant : ∃ r, relative = '/' :: r
  · -- the descendant axis; its first step is empty
    obtain ⟨r, rfl⟩ := hdescendant
    refine ⟨fun h => (by cases h), ?_⟩
    rintro ⟨ts, steps, hts, hmap, -⟩
    rw [parts, splitFrom_separator] at hts
    obtain ⟨ps, hps, rfl⟩ := Option.map_eq_some_iff.1 hts
    obtain ⟨qs, -, rfl⟩ := Option.map_eq_some_iff.1 hps
    rw [List.map_cons, List.mapM_cons] at hmap
    cases hmap
  rw [path.eq_def]
  split
  · rename_i r heq
    exact absurd ⟨r, (List.cons.inj heq).2⟩ hdescendant
  · rename_i relative' _ heq
    obtain rfl := (List.cons.inj heq).2
    constructor
    · intro hok
      obtain ⟨ps, hps, hok⟩ := exists_ok_of_bind hok
      obtain ⟨steps, hsteps, hcompile⟩ := exists_ok_of_bind hok
      obtain ⟨ts, hts, hmap⟩ := bind_split_eq_ok.1 (ok_of_bind hps hsteps)
      refine ⟨ts, steps, hts, hmap, ?_⟩
      cases hroot : compile steps with
      | none =>
        rw [hroot] at hcompile
        cases hcompile
      | some g =>
        rw [hroot] at hcompile
        cases hcompile
        rfl
    · rintro ⟨ts, steps, hts, hmap, hcompile⟩
      obtain ⟨ps, hps, hsteps⟩ := exists_ok_of_bind (bind_split_eq_ok.2 ⟨ts, hts, hmap⟩)
      refine ok_of_bind hps (ok_of_bind hsteps ?_)
      rw [hcompile]
  · rename_i hslash
    exact absurd rfl (hslash relative)

/-- A path is understood as the filter root that it stands for. -/
theorem path_chars (hreads : ∀ l v, reads l v → Readable l v) (p : Path reads) :
    path (trimChars p.chars) = .ok p.root := by
  rw [Path.chars, trimChars_cons p.before.blank rfl, path_eq_ok]
  refine ⟨(p.first :: p.more).map fun s => trimChars s.chars, (p.first :: p.more).map Step.compiled, ?_, ?_,
    Path.compile_eq p.first p.more⟩
  · rw [parts_dropBlanksEnd rfl]
    exact p.parts_body hreads
  · exact mapM_eq_ok fun s _ => step_chars hreads _ s

/-- What is understood as a path is one. -/
theorem exists_of_path (hreads : ∀ l v, Readable l v → reads l v) {cs : List Char} {f : FilterNode}
    (h : path (trimChars cs) = .ok f) : ∃ p : Path reads, p.chars = cs ∧ p.root = f := by
  obtain ⟨g, g', hg, hg', hcs⟩ := exists_trimChars cs
  obtain ⟨relative, hrelative⟩ : ∃ relative, trimChars cs = '/' :: relative := by
    rw [path.eq_def] at h
    split at h
    · cases h
    · rename_i relative _ heq
      exact ⟨relative, heq⟩
    · cases h
  rw [hrelative] at h hcs
  obtain ⟨ts, steps, hts, hmap, hcompile⟩ := path_eq_ok.1 h
  rw [← parts_append .nil hg' rfl, List.nil_append] at hts
  obtain ⟨q, qs, hbody, -, rfl⟩ := parts_eq_some.1 hts
  rw [List.mapM_map] at hmap
  obtain ⟨xs, hxs, rfl⟩ := exists_of_mapM_eq_ok (exists_of_step hreads) hmap
  cases xs with
  | nil => cases hxs
  | cons s ss =>
    obtain ⟨rfl, rfl⟩ := List.cons.inj hxs
    refine ⟨⟨⟨g, hg⟩, s, ss⟩, ?_, Option.some.inj ((Path.compile_eq s ss).symm.trans hcompile)⟩
    have hchars : Path.body ⟨⟨g, hg⟩, s, ss⟩ = relative ++ g' := by
      rw [hbody, List.flatMap_map]
      rfl
    rw [Path.chars, hchars, hcs, List.append_assoc, List.cons_append]

end Expression

/-! ## Unions -/

/-- A union of absolute paths, as it is written, with literals that read in this way. -/
structure Expression (reads : Expression.Reads) where
  first : Expression.Path reads
  more : List (Expression.Path reads)

namespace Expression

open Text LocationPath

variable {reads : Reads}

def chars (u : Expression reads) : List Char := u.first.chars ++ u.more.flatMap ('|' :: ·.chars)

/-- The filter that it stands for. -/
def filter (u : Expression reads) : SubtreeFilter := ⟨(u.first :: u.more).map Path.root⟩

theorem Path.whole (hreads : ∀ l v, reads l v → Readable l v) (p : Path reads) : Whole '|' p.chars := by
  have hstep : ∀ s : Step reads, Whole '|' s.chars := fun s => s.whole hreads rfl rfl (by decide)
  have hslash : Whole '|' ['/'] := rfl
  have hmore : Whole '|' (p.more.flatMap ('/' :: ·.chars)) := .flatMap fun s _ => hslash.append (hstep s)
  exact (p.before.whole rfl).append (hslash.append ((hstep p.first).append hmore))

/-- An expression is read bar by bar, without the blanks around it. -/
theorem parse_eq_ok {e : String} {f : PathFilter} :
    PathFilter.parse e = .ok f ↔
      ∃ ts roots, parts '|' e.toList = some ts ∧ ts.mapM path = .ok roots ∧ f = ⟨trim e, ⟨roots⟩⟩ := by
  have hparse : PathFilter.parse e =
      if (trimChars e.toList).isEmpty then .error .blank
      else
        (split '|' (trimChars e.toList) >>= fun ps => ps.mapM fun p => path (trimChars p)) >>= fun roots =>
          .ok ⟨trim e, ⟨roots⟩⟩ := by
    unfold PathFilter.parse
    dsimp only
    split
    · rfl
    · exact (bind_assoc ..).symm
  rw [hparse, ← parts_trimChars rfl]
  split
  · -- a blank expression has one part, which is no path
    rename_i hempty
    rw [List.isEmpty_iff.1 hempty]
    refine ⟨nofun, ?_⟩
    rintro ⟨ts, roots, hts, hmap, -⟩
    obtain rfl := Option.some.inj hts
    cases hmap
  · constructor
    · intro h
      obtain ⟨roots, hroots, h⟩ := exists_ok_of_bind h
      cases h
      obtain ⟨ts, hts, hmap⟩ := bind_split_eq_ok.1 hroots
      exact ⟨ts, roots, hts, hmap, rfl⟩
    · rintro ⟨ts, roots, hts, hmap, rfl⟩
      rw [bind_split_eq_ok.2 ⟨ts, hts, hmap⟩]
      rfl

/-- Every expression is understood as it is written, if its literals are. -/
theorem parse_chars (hreads : ∀ l v, reads l v → Readable l v) (u : Expression reads) {e : String}
    (he : e.toList = u.chars) : PathFilter.parse e = .ok ⟨trim e, u.filter⟩ := by
  refine parse_eq_ok.2 ⟨(u.first :: u.more).map fun p => trimChars p.chars, u.filter.roots, ?_, ?_, rfl⟩
  · refine parts_eq_some.2 ⟨u.first.chars, u.more.map Path.chars, ?_, ?_, ?_⟩
    · rw [he, chars, List.flatMap_map]
    · rw [← List.map_cons, List.forall_mem_map]
      exact fun p _ => p.whole hreads
    · rw [← List.map_cons, List.map_map]
      rfl
  · exact mapM_eq_ok fun p _ => path_chars hreads p

/-- Nothing else is understood. -/
theorem exists_of_parse (hreads : ∀ l v, Readable l v → reads l v) {e : String} {f : PathFilter}
    (h : PathFilter.parse e = .ok f) : ∃ u : Expression reads, e.toList = u.chars ∧ f = ⟨trim e, u.filter⟩ := by
  obtain ⟨ts, roots, hts, hmap, rfl⟩ := parse_eq_ok.1 h
  obtain ⟨q, qs, hparts, -, rfl⟩ := parts_eq_some.1 hts
  rw [List.mapM_map] at hmap
  obtain ⟨xs, hxs, rfl⟩ := exists_of_mapM_eq_ok (exists_of_path hreads) hmap
  cases xs with
  | nil => cases hxs
  | cons p ps =>
    obtain ⟨rfl, rfl⟩ := List.cons.inj hxs
    refine ⟨⟨p, ps⟩, ?_, rfl⟩
    rw [hparts, chars, List.flatMap_map]

end Expression

end YangSubscriptions
