import YangSubscriptions.Filter.LocationPath
import YangSubscriptions.Proofs.Text.Blank

/-!
# Splitting outside brackets

Two scanners read an expression: one that splits it, and counts brackets and quotes for that, and one that looks for
the end of a predicate. What a text does to either of them is a function of the text alone (`walk`, `scan`), and
texts follow one another as these functions compose. So a split is right (`splitFrom_eq_some`), and what one
scanner takes for a predicate is nothing to the other (`whole_bracketed`).
-/

namespace YangSubscriptions

namespace LocationPath

open Text

/-- The nesting outside brackets. -/
def outside : Nesting := ⟨0, none⟩

theorem eq_outside {n : Nesting} (h : n.depth = 0 ∧ n.quote = none) : n = outside := by
  obtain ⟨depth, quote⟩ := n
  obtain ⟨rfl, rfl⟩ := h
  rfl

/-- The nesting behind a text that has no separator to split at. -/
def walk (separator : Char) (n : Nesting) : List Char → Option Nesting
  | [] => some n
  | c :: r =>
    if c = separator ∧ n.depth = 0 ∧ n.quote = none then none else (n.after c).bind fun n' => walk separator n' r

/-- The quote that is open behind a text; none for a bracket outside quotes. -/
def scan (quote : Option Char) : List Char → Option (Option Char)
  | [] => some quote
  | c :: r =>
    match quote with
    | some q => scan (if c = q then none else quote) r
    | none => if c = ']' ∨ c = '[' then none else scan (if c = '\'' ∨ c = '"' then some c else none) r

variable {separator : Char}

theorem walk_append (n : Nesting) (a b : List Char) :
    walk separator n (a ++ b) = (walk separator n a).bind fun n' => walk separator n' b := by
  induction a generalizing n with
  | nil => rfl
  | cons c a ih =>
    rw [List.cons_append, walk, walk]
    split
    · rfl
    · cases n.after c with
      | none => rfl
      | some n' => exact ih n'

theorem scan_append (q : Option Char) (a b : List Char) : scan q (a ++ b) = (scan q a).bind fun q' => scan q' b := by
  induction a generalizing q with
  | nil => rfl
  | cons c a ih =>
    rw [List.cons_append, scan.eq_def, scan.eq_def q (c :: a)]
    cases q with
    | some q => exact ih _
    | none =>
      dsimp only
      split
      · rfl
      · exact ih _

/-- Does a text leave both scanners as they are, outside of quotes? -/
def Plain (cs : List Char) : Prop := ∀ c ∈ cs, c ≠ '[' ∧ c ≠ ']' ∧ c ≠ '\'' ∧ c ≠ '"'

theorem Plain.scan {cs : List Char} (h : Plain cs) : scan none cs = some none := by
  induction cs with
  | nil => rfl
  | cons c r ih =>
    obtain ⟨hopen, hclose, hsingle, hdouble⟩ := h c List.mem_cons_self
    rw [LocationPath.scan]
    simp only [hopen, hclose, hsingle, hdouble, or_self, if_false]
    exact ih fun d hd => h d (List.mem_cons_of_mem c hd)

/-- A text that can be a part: all that is opened in it is closed, and no separator stands outside. -/
def Whole (separator : Char) (cs : List Char) : Prop := walk separator outside cs = some outside

/-- What can be cut nowhere stays whole when it is joined. -/
theorem Whole.append {a b : List Char} (ha : Whole separator a) (hb : Whole separator b) :
    Whole separator (a ++ b) := by
  rw [Whole, walk_append, ha]
  exact hb

theorem Whole.flatMap {α : Type} {f : α → List Char} {xs : List α} (h : ∀ x ∈ xs, Whole separator (f x)) :
    Whole separator (xs.flatMap f) := by
  induction xs with
  | nil => rfl
  | cons x xs ih =>
    rw [List.flatMap_cons]
    exact (h x List.mem_cons_self).append (ih fun y hy => h y (List.mem_cons_of_mem x hy))

/-- Plain text without the separator is whole. -/
theorem Plain.whole {cs : List Char} (h : Plain cs) (hsep : separator ∉ cs) : Whole separator cs := by
  induction cs with
  | nil => rfl
  | cons c r ih =>
    obtain ⟨hopen, hclose, hsingle, hdouble⟩ := h c List.mem_cons_self
    rw [List.mem_cons, not_or] at hsep
    have hafter : outside.after c = some outside := by
      simp only [Nesting.after, outside, hopen, hclose, hsingle, hdouble, or_self, false_and, if_false]
    rw [Whole, walk, if_neg fun hc => hsep.1 hc.1.symm, hafter]
    exact ih (fun d hd => h d (List.mem_cons_of_mem c hd)) hsep.2

/-- An open quote is a quotation mark. -/
theorem quote_of_scan {q q' : Option Char} {cs : List Char} (hq : ∀ c ∈ q, c = '\'' ∨ c = '"')
    (h : scan q cs = some q') : ∀ c ∈ q', c = '\'' ∨ c = '"' := by
  induction cs generalizing q with
  | nil => exact Option.some.inj h ▸ hq
  | cons c r ih =>
    rw [scan.eq_def] at h
    cases q with
    | some q =>
      refine ih (fun d hd => hq d ?_) h
      split at hd
      · cases hd
      · exact hd
    | none =>
      dsimp only at h
      split at h
      · cases h
      · refine ih (fun d hd => ?_) h
        split at hd
        · rename_i hquote
          rw [← Option.some.inj hd]
          exact hquote
        · cases hd

theorem scan_of_not_mem {q : Char} {cs : List Char} (h : q ∉ cs) : scan (some q) cs = some (some q) := by
  induction cs with
  | nil => rfl
  | cons c r ih =>
    rw [List.mem_cons, not_or] at h
    rw [scan, if_neg (Ne.symm h.1)]
    exact ih h.2

/-- Between brackets both scanners see the same quotes. -/
theorem walk_of_scan {q q' : Option Char} {cs : List Char} (h : scan q cs = some q') :
    walk separator ⟨1, q⟩ cs = some ⟨1, q'⟩ := by
  induction cs generalizing q with
  | nil => rw [← Option.some.inj h, walk]
  | cons c r ih =>
    rw [walk, if_neg fun hc => by cases hc.2.1]
    cases q with
    | some q =>
      rw [scan] at h
      have hafter : Nesting.after ⟨1, some q⟩ c = some ⟨1, if c = q then none else some q⟩ := by
        simp only [Nesting.after]
        split <;> rfl
      rw [hafter]
      exact ih h
    | none =>
      rw [scan] at h
      split at h
      · cases h
      · rename_i hbracket
        rw [not_or] at hbracket
        have hafter : Nesting.after ⟨1, none⟩ c = some ⟨1, if c = '\'' ∨ c = '"' then some c else none⟩ := by
          simp only [Nesting.after, hbracket, if_false, Nat.one_pos, and_true]
          split <;> rfl
        rw [hafter]
        exact ih h

/-- A text in brackets is passed over, whatever it is split at. -/
theorem whole_bracketed {cs : List Char} (h : scan none cs = some none) (hsep : separator ≠ '[') :
    Whole separator ('[' :: (cs ++ [']'])) := by
  have hopen : outside.after '[' = some ⟨1, none⟩ := rfl
  have hclose : walk separator ⟨1, none⟩ [']'] = some outside := by
    rw [walk, if_neg fun hc => by cases hc.2.1]
    rfl
  rw [Whole, walk, if_neg fun hc => hsep hc.1.symm, hopen]
  show walk separator ⟨1, none⟩ (cs ++ [']']) = _
  rw [walk_append, walk_of_scan h]
  exact hclose

/-! ## Predicates -/

/-- The content of a predicate goes to the first bracket outside quotes, which must close it. -/
theorem predicateContent_eq_some {q : Option Char} {cs a b : List Char} :
    predicateContent q cs = some (a, b) ↔ cs = a ++ ']' :: b ∧ scan q a = some none := by
  induction cs generalizing q a with
  | nil => simp [predicateContent]
  | cons c r ih =>
    have hstep : ∀ q', ((predicateContent q' r).map fun p => (c :: p.1, p.2)) = some (a, b) ↔
        ∃ a', a = c :: a' ∧ r = a' ++ ']' :: b ∧ scan q' a' = some none := by
      intro q'
      rw [Option.map_eq_some_iff]
      constructor
      · rintro ⟨⟨a', b'⟩, hread, heq⟩
        cases heq
        exact ⟨a', rfl, ih.1 hread⟩
      · rintro ⟨a', rfl, hr⟩
        exact ⟨(a', b), ih.2 hr, rfl⟩
    rw [predicateContent.eq_def]
    cases q with
    | some q =>
      refine (hstep _).trans ⟨?_, ?_⟩
      · rintro ⟨a', rfl, rfl, hscan⟩
        exact ⟨rfl, by rw [scan]; exact hscan⟩
      · rintro ⟨hcs, hscan⟩
        cases a with
        | nil => cases hscan
        | cons d a' =>
          obtain ⟨rfl, rfl⟩ := List.cons.inj hcs
          rw [scan] at hscan
          exact ⟨a', rfl, rfl, hscan⟩
    | none =>
      dsimp only
      by_cases hbracket : c = ']' ∨ c = '['
      · have hnone : ∀ a', scan none (c :: a') = none := fun a' => by rw [scan, if_pos hbracket]
        rcases hbracket with rfl | rfl
        · rw [if_pos rfl]
          constructor
          · intro h
            cases h
            exact ⟨rfl, rfl⟩
          · rintro ⟨hcs, hscan⟩
            cases a with
            | nil => rw [(List.cons.inj hcs).2]
            | cons d a' =>
              rw [← (List.cons.inj hcs).1, hnone] at hscan
              cases hscan
        · rw [if_neg (by decide), if_pos rfl]
          constructor
          · intro h
            cases h
          · rintro ⟨hcs, hscan⟩
            cases a with
            | nil => cases (List.cons.inj hcs).1
            | cons d a' =>
              rw [← (List.cons.inj hcs).1, hnone] at hscan
              cases hscan
      · have hscan : ∀ a', scan none (c :: a') = scan (if c = '\'' ∨ c = '"' then some c else none) a' :=
          fun a' => by rw [scan, if_neg hbracket]
        rw [not_or] at hbracket
        rw [if_neg hbracket.1, if_neg hbracket.2]
        refine (hstep _).trans ⟨?_, ?_⟩
        · rintro ⟨a', rfl, rfl, h⟩
          exact ⟨rfl, (hscan a').trans h⟩
        · rintro ⟨hcs, h⟩
          cases a with
          | nil => exact absurd (List.cons.inj hcs).1 hbracket.1
          | cons d a' =>
            obtain ⟨rfl, rfl⟩ := List.cons.inj hcs
            exact ⟨a', rfl, rfl, (hscan a').symm.trans h⟩

/-! ## Parts -/

theorem splitFrom_separator (r : List Char) :
    splitFrom separator outside (separator :: r) = (splitFrom separator outside r).map ([] :: ·) := by
  rw [splitFrom, if_pos ⟨rfl, rfl, rfl⟩]

/-- Any other character belongs to the first part. -/
theorem splitFrom_cons {n : Nesting} {c : Char} (h : ¬(c = separator ∧ n.depth = 0 ∧ n.quote = none))
    (r : List Char) :
    splitFrom separator n (c :: r) =
      (n.after c).bind fun n' => (splitFrom separator n' r).map (List.modifyHead (c :: ·)) := by
  rw [splitFrom, if_neg h]
  cases n.after c with
  | none => rfl
  | some n' =>
    dsimp only [Option.bind_some]
    cases splitFrom separator n' r with
    | none => rfl
    | some ps => cases ps <;> rfl

theorem splitFrom_ne_nil {n : Nesting} {cs : List Char} : splitFrom separator n cs ≠ some [] := by
  induction cs generalizing n with
  | nil =>
    rw [splitFrom]
    split <;> nofun
  | cons c r ih =>
    intro h
    by_cases hsep : c = separator ∧ n.depth = 0 ∧ n.quote = none
    · rw [splitFrom, if_pos hsep] at h
      obtain ⟨ps, -, hps⟩ := Option.map_eq_some_iff.1 h
      cases hps
    · rw [splitFrom_cons hsep] at h
      obtain ⟨n', -, h⟩ := Option.bind_eq_some_iff.1 h
      obtain ⟨ps, hrest, hps⟩ := Option.map_eq_some_iff.1 h
      cases ps with
      | nil => exact ih hrest
      | cons p ps => cases hps

/-- The parts make the text, with separators between them, and none of them has an open bracket or a separator. -/
theorem splitFrom_eq_some {n : Nesting} {cs p : List Char} {ps : List (List Char)} :
    splitFrom separator n cs = some (p :: ps) ↔
      cs = p ++ ps.flatMap (separator :: ·) ∧ walk separator n p = some outside ∧ ∀ q ∈ ps, Whole separator q := by
  induction cs generalizing n p ps with
  | nil =>
    rw [splitFrom]
    constructor
    · intro h
      split at h
      · rename_i hn
        cases h
        exact ⟨rfl, congrArg some (eq_outside hn), nofun⟩
      · cases h
    · rintro ⟨hnil, hwalk, -⟩
      obtain ⟨rfl, hps⟩ := List.append_eq_nil_iff.1 hnil.symm
      obtain rfl := Option.some.inj hwalk
      cases ps with
      | nil => rfl
      | cons q ps => cases hps
  | cons c r ih =>
    by_cases hsep : c = separator ∧ n.depth = 0 ∧ n.quote = none
    · -- the part ends here, so it is empty
      obtain ⟨rfl, hn⟩ := hsep
      obtain rfl := eq_outside hn
      rw [splitFrom_separator, Option.map_eq_some_iff]
      constructor
      · rintro ⟨parts, hparts, heq⟩
        obtain ⟨rfl, rfl⟩ := List.cons.inj heq
        cases parts with
        | nil => exact absurd hparts splitFrom_ne_nil
        | cons q qs =>
          obtain ⟨rfl, hq, hqs⟩ := ih.1 hparts
          exact ⟨rfl, rfl, List.forall_mem_cons.2 ⟨hq, hqs⟩⟩
      · rintro ⟨hcs, hp, hps⟩
        cases p with
        | nil =>
          cases ps with
          | nil => cases hcs
          | cons q qs =>
            obtain ⟨hq, hqs⟩ := List.forall_mem_cons.1 hps
            exact ⟨q :: qs, ih.2 ⟨(List.cons.inj hcs).2, hq, hqs⟩, rfl⟩
        | cons d p =>
          rw [← (List.cons.inj hcs).1, walk, if_pos ⟨rfl, hn⟩] at hp
          cases hp
    · rw [splitFrom_cons hsep, Option.bind_eq_some_iff]
      constructor
      · rintro ⟨n', hafter, h⟩
        obtain ⟨parts, hparts, heq⟩ := Option.map_eq_some_iff.1 h
        cases parts with
        | nil => exact absurd hparts splitFrom_ne_nil
        | cons q qs =>
          cases heq
          obtain ⟨rfl, hwalk, hps⟩ := ih.1 hparts
          exact ⟨rfl, by rw [walk, if_neg hsep, hafter]; exact hwalk, hps⟩
      · rintro ⟨hcs, hwalk, hps⟩
        cases p with
        | nil =>
          obtain rfl := Option.some.inj hwalk
          cases ps with
          | nil => cases hcs
          | cons q qs => exact absurd ⟨(List.cons.inj hcs).1, rfl, rfl⟩ hsep
        | cons d p =>
          have hr : r = p ++ ps.flatMap (separator :: ·) := (List.cons.inj hcs).2
          obtain rfl := (List.cons.inj hcs).1
          rw [walk, if_neg hsep] at hwalk
          obtain ⟨n', hafter, hwalk'⟩ := Option.bind_eq_some_iff.1 hwalk
          exact ⟨n', hafter, Option.map_eq_some_iff.2 ⟨p :: ps, ih.2 ⟨hr, hwalk', hps⟩, rfl⟩⟩

/-! ## Blanks around the parts -/

/-- No blank is taken for an open quote. -/
def Nesting.Sound (n : Nesting) : Prop := ∀ q ∈ n.quote, isBlank q = false

theorem after_blank {n : Nesting} (hn : n.Sound) {c : Char} (hc : isBlank c = true) : n.after c = some n := by
  have hne : ∀ d, isBlank d = false → c ≠ d := by
    rintro d hd rfl
    rw [hc] at hd
    cases hd
  unfold Nesting.after
  cases hq : n.quote with
  | some q => exact congrArg some (if_neg (hne q (hn q hq)))
  | none =>
    simp only [hne '\'' (by decide), hne '"' (by decide), hne '[' (by decide), hne ']' (by decide), or_self,
      false_and, if_false]

theorem sound_after {n n' : Nesting} (hn : n.Sound) {c : Char} (h : n.after c = some n') : n'.Sound := by
  obtain ⟨depth, quote⟩ := n
  have hunquoted : ∀ d, Nesting.Sound ⟨d, none⟩ := fun _ => nofun
  cases quote with
  | some q =>
    rw [← Option.some.inj h]
    split
    · exact hunquoted depth
    · exact hn
  | none =>
    simp only [Nesting.after] at h
    split at h
    · rename_i hquote
      rw [← Option.some.inj h]
      rintro q hq
      obtain rfl := Option.some.inj hq
      rcases hquote.1 with rfl | rfl <;> decide
    · split at h
      · exact Option.some.inj h ▸ hunquoted _
      · split at h
        · split at h
          · cases h
          · exact Option.some.inj h ▸ hunquoted _
        · exact Option.some.inj h ▸ hn

theorem splitFrom_cons_blank (hsep : isBlank separator = false) {n : Nesting} (hn : n.Sound) {c : Char}
    (hc : isBlank c = true) (r : List Char) :
    splitFrom separator n (c :: r) = (splitFrom separator n r).map (List.modifyHead (c :: ·)) := by
  have hne : c ≠ separator := by
    rintro rfl
    rw [hc] at hsep
    cases hsep
  rw [splitFrom_cons fun h => hne h.1, after_blank hn hc]
  rfl

/-- Blanks behind the last part. -/
def padEnd (g : List Char) : List (List Char) → List (List Char)
  | [] => []
  | [p] => [p ++ g]
  | p :: q :: ps => p :: padEnd g (q :: ps)

theorem modifyHead_padEnd (g : List Char) (c : Char) (ps : List (List Char)) :
    (padEnd g ps).modifyHead (c :: ·) = padEnd g (ps.modifyHead (c :: ·)) := by
  rcases ps with _ | ⟨p, _ | ⟨q, ps⟩⟩ <;> rfl

theorem map_trimChars_padEnd {g : List Char} (hg : Blank g) (ps : List (List Char)) :
    (padEnd g ps).map trimChars = ps.map trimChars := by
  induction ps with
  | nil => rfl
  | cons p ps ih =>
    cases ps with
    | nil => exact congrArg (List.cons · []) (trimChars_append .nil hg p)
    | cons q ps => exact congrArg (List.cons _) ih

theorem map_trimChars_modifyHead {g : List Char} (hg : Blank g) (ps : List (List Char)) :
    (ps.modifyHead (g ++ ·)).map trimChars = ps.map trimChars := by
  cases ps with
  | nil => rfl
  | cons p ps =>
    have hp : trimChars (g ++ p) = trimChars p := by rw [← trimChars_append hg .nil p, List.append_nil]
    exact congrArg (List.cons · (ps.map trimChars)) hp

/-- Blanks at the end go with the last part. -/
theorem splitFrom_append {g : List Char} (hg : Blank g) (hsep : isBlank separator = false) {n : Nesting}
    (hn : n.Sound) (cs : List Char) :
    splitFrom separator n (cs ++ g) = (splitFrom separator n cs).map (padEnd g) := by
  induction cs generalizing n with
  | nil =>
    induction g with
    | nil =>
      rw [List.append_nil, splitFrom]
      split <;> rfl
    | cons c g ih =>
      rw [List.nil_append] at ih ⊢
      rw [splitFrom_cons_blank hsep hn (hg c List.mem_cons_self), ih fun d hd => hg d (List.mem_cons_of_mem c hd),
        splitFrom]
      split <;> rfl
  | cons c r ih =>
    rw [List.cons_append]
    by_cases h : c = separator ∧ n.depth = 0 ∧ n.quote = none
    · obtain ⟨rfl, hn'⟩ := h
      obtain rfl := eq_outside hn'
      rw [splitFrom_separator, splitFrom_separator, ih hn]
      cases hrest : splitFrom c outside r with
      | none => rfl
      | some ps =>
        cases ps with
        | nil => exact absurd hrest splitFrom_ne_nil
        | cons p ps => rfl
    · rw [splitFrom_cons h, splitFrom_cons h]
      cases hafter : n.after c with
      | none => rfl
      | some n' =>
        rw [Option.bind_some, Option.bind_some, ih (sound_after hn hafter), Option.map_map, Option.map_map]
        exact congrArg (Option.map · _) (funext fun ps => modifyHead_padEnd g c ps)

theorem splitFrom_append_left {g : List Char} (hg : Blank g) (hsep : isBlank separator = false) (cs : List Char) :
    splitFrom separator outside (g ++ cs) = (splitFrom separator outside cs).map (List.modifyHead (g ++ ·)) := by
  have hsound : outside.Sound := nofun
  induction g with
  | nil =>
    have hid : (List.modifyHead fun x : List Char => [] ++ x) = id := by
      funext ps
      cases ps <;> rfl
    rw [hid, Option.map_id]
    rfl
  | cons c g ih =>
    rw [List.cons_append, splitFrom_cons_blank hsep hsound (hg c List.mem_cons_self),
      ih fun d hd => hg d (List.mem_cons_of_mem c hd), Option.map_map]
    refine congrArg (Option.map · _) (funext fun ps => ?_)
    cases ps <;> rfl

/-- The parts of a text, trimmed. -/
def parts (separator : Char) (cs : List Char) : Option (List (List Char)) :=
  (splitFrom separator outside cs).map (·.map trimChars)

/-- Blanks around a text make no difference to its parts. -/
theorem parts_append {g g' : List Char} (hg : Blank g) (hg' : Blank g') (hsep : isBlank separator = false)
    (cs : List Char) : parts separator (g ++ cs ++ g') = parts separator cs := by
  have hsound : outside.Sound := nofun
  rw [parts, splitFrom_append hg' hsep hsound, splitFrom_append_left hg hsep, Option.map_map, Option.map_map, parts]
  refine congrArg (Option.map · _) (funext fun ps => ?_)
  exact (map_trimChars_padEnd hg' _).trans (map_trimChars_modifyHead hg ps)

/-- It does not matter whether the whole was trimmed first. -/
theorem parts_trimChars (hsep : isBlank separator = false) (cs : List Char) :
    parts separator (trimChars cs) = parts separator cs := by
  obtain ⟨g, g', hg, hg', hcs⟩ := exists_trimChars cs
  rw [← parts_append hg hg' hsep, ← hcs]

theorem parts_dropBlanksEnd (hsep : isBlank separator = false) (cs : List Char) :
    parts separator (dropBlanksEnd cs) = parts separator cs := by
  obtain ⟨g, hg, hcs⟩ := exists_dropBlanksEnd cs
  rw [← parts_append .nil hg hsep, List.nil_append, ← hcs]

/-- Cutting gives the whole pieces between the separators, trimmed, and no others. -/
theorem parts_eq_some {cs : List Char} {ts : List (List Char)} :
    parts separator cs = some ts ↔
      ∃ p ps, cs = p ++ ps.flatMap (separator :: ·) ∧ (∀ q ∈ p :: ps, Whole separator q) ∧
        ts = (p :: ps).map trimChars := by
  rw [parts, Option.map_eq_some_iff]
  constructor
  · rintro ⟨_ | ⟨p, ps⟩, hsplit, rfl⟩
    · exact absurd hsplit splitFrom_ne_nil
    · obtain ⟨hcs, hp, hps⟩ := splitFrom_eq_some.1 hsplit
      exact ⟨p, ps, hcs, List.forall_mem_cons.2 ⟨hp, hps⟩, rfl⟩
  · rintro ⟨p, ps, hcs, hwhole, rfl⟩
    exact ⟨p :: ps, splitFrom_eq_some.2 ⟨hcs, List.forall_mem_cons.1 hwhole⟩, rfl⟩

end LocationPath

end YangSubscriptions
