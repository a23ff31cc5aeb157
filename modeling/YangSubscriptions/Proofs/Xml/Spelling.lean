import YangSubscriptions.Proofs.Xml.Content

/-!
# Spellings of text

The content of an element can be spelled in many ways: characters as they are, in CDATA sections, as references, with
comments and processing instructions in between (`Piece`). Every spelling is read, piece by piece
(`parse_spelling`). It is read as what it means but for references by number: these are not decoded, and like the name
of an entity that nobody declared, what stands between the marks of the reference is taken for text. So a spelling is
read as what it means just if no character is referred to by its number (`content_of_spelling`).
-/

namespace YangSubscriptions.Xml

/-! ## Up to the end of a piece of markup -/

section
variable {mark : List Char} {least : Nat}

/-- Content ends where the mark is for the first time followed by `>`, if that is late enough. -/
theorem contentUpTo_eq (rest : List Char) : ∀ (cs seen : List Char),
    (∀ a b, cs = a ++ '>' :: b → ¬ (least ≤ (seen.reverse ++ a).length ∧ mark <:+ seen.reverse ++ a)) →
    least ≤ (seen.reverse ++ cs).length → mark <:+ seen.reverse ++ cs →
      contentUpTo mark least seen (cs ++ '>' :: rest) = some (seen.reverse ++ cs, rest)
  | [], seen, _, hleast, hmark => by
    have hseen : mark.reverse.isPrefixOf seen = true := by
      rw [List.isPrefixOf_iff_prefix, ← List.reverse_reverse seen, List.reverse_prefix]
      simpa using hmark
    have hlength : least ≤ seen.length := by simpa using hleast
    rw [List.nil_append, contentUpTo, if_pos ⟨rfl, hlength, hseen⟩, List.append_nil]
  | c :: cs, seen, hearlier, hleast, hmark => by
    have hshift : ∀ a : List Char, (c :: seen).reverse ++ a = seen.reverse ++ c :: a := fun a => by simp
    have hnot : ¬ (c = '>' ∧ least ≤ seen.length ∧ mark.reverse.isPrefixOf seen = true) := by
      rintro ⟨rfl, hlength, hseen⟩
      refine hearlier [] cs rfl ⟨by simpa using hlength, ?_⟩
      rw [List.isPrefixOf_iff_prefix, ← List.reverse_reverse seen, List.reverse_prefix] at hseen
      simpa using hseen
    rw [List.cons_append, contentUpTo, if_neg hnot, contentUpTo_eq rest cs (c :: seen), hshift]
    · intro a b hcs
      rw [hshift]
      exact hearlier (c :: a) b (congrArg (c :: ·) hcs)
    · rw [hshift]
      exact hleast
    · rw [hshift]
      exact hmark

/-- A `>` in front of what has none stands before it. -/
theorem exists_of_append {body a b : List Char} (hmark : '>' ∉ mark) (h : body ++ mark = a ++ '>' :: b) :
    ∃ b', body = a ++ '>' :: b' := by
  rcases List.append_eq_append_iff.1 h with ⟨m, -, hm⟩ | ⟨c, hbody, hc⟩
  · exact absurd (by simp [hm]) hmark
  · cases c with
    | nil =>
      rw [List.nil_append] at hc
      exact absurd (by simp [← hc]) hmark
    | cons d c =>
      cases hc
      exact ⟨c, hbody⟩

/-- A `>` behind what has none stands after it. -/
theorem exists_of_append_left {pre body a b : List Char} (hpre : '>' ∉ pre) (h : pre ++ body = a ++ '>' :: b) :
    ∃ a', a = pre ++ a' ∧ body = a' ++ '>' :: b := by
  rcases List.append_eq_append_iff.1 h with ⟨a', rfl, hbody⟩ | ⟨c, rfl, hc⟩
  · exact ⟨a', rfl, hbody⟩
  · cases c with
    | nil => exact ⟨[], by simp, hc.symm⟩
    | cons d c =>
      cases hc
      exact absurd (by simp) hpre

/-- Behind a run that is at least as long, a mark that ends the text ends the run. -/
theorem infix_of_suffix {pre a b : List Char} (h : mark <:+ pre ++ a) (hlength : mark.length ≤ a.length) :
    mark ++ ['>'] <:+: a ++ '>' :: b := by
  obtain ⟨u, hu⟩ := List.suffix_of_suffix_length_le h (List.suffix_append pre a) hlength
  exact ⟨u, b, by rw [← hu]; simp⟩

end

/-! ## Pieces of content -/

/-- A piece of the content of an element. -/
inductive Piece where
  | literal (c : Char)
  | cdata (cs : List Char)
  | reference (name : List Char)
  | comment (cs : List Char)
  | instruction (cs : List Char)
  deriving DecidableEq, Repr

namespace Piece

def chars : Piece → List Char
  | literal c => [c]
  | cdata cs => '<' :: '!' :: (['[', 'C', 'D', 'A', 'T', 'A', '['] ++ cs ++ [']', ']', '>'])
  | reference name => '&' :: (name ++ [';'])
  | comment cs => '<' :: '!' :: (['-', '-'] ++ cs ++ ['-', '-', '>'])
  | instruction cs => '<' :: '?' :: (cs ++ ['?', '>'])

/-- Is the piece one that markup allows: does it not hold what would begin or end it elsewhere? -/
def Proper : Piece → Prop
  | literal c => c ≠ '<' ∧ c ≠ '&'
  | cdata cs => ¬ [']', ']', '>'] <:+: cs
  | reference name => ∀ c ∈ name, c ≠ ';' ∧ c ≠ '&' ∧ c ≠ '<'
  | comment cs => ¬ ['-', '-'] <:+: cs
  | instruction cs => cs.head? ≠ some '>' ∧ ¬ ['?', '>'] <:+: cs

instance : DecidablePred Proper
  | literal c => inferInstanceAs (Decidable (c ≠ '<' ∧ c ≠ '&'))
  | cdata cs => inferInstanceAs (Decidable (¬ [']', ']', '>'] <:+: cs))
  | reference name => List.decidableBAll (fun c => c ≠ ';' ∧ c ≠ '&' ∧ c ≠ '<') name
  | comment cs => inferInstanceAs (Decidable (¬ ['-', '-'] <:+: cs))
  | instruction cs => inferInstanceAs (Decidable (cs.head? ≠ some '>' ∧ ¬ ['?', '>'] <:+: cs))

instance (ps : List Piece) : Decidable (∀ p ∈ ps, p.Proper) := List.decidableBAll Proper ps

/-- What is read of it as text. -/
def read : Piece → List Char
  | literal c => [c]
  | cdata cs => cs
  | reference name => (referenceText (String.ofList name)).toList
  | comment _ | instruction _ => []

end Piece

theorem bang_cdata {cs : List Char} (h : ¬ [']', ']', '>'] <:+: cs) (rest : List Char) :
    bang (['[', 'C', 'D', 'A', 'T', 'A', '['] ++ cs ++ [']', ']'] ++ '>' :: rest) =
      .ok (.cdata (String.ofList cs), rest) := by
  have hearlier : ∀ a b, ['[', 'C', 'D', 'A', 'T', 'A', '['] ++ cs ++ [']', ']'] = a ++ '>' :: b →
      ¬ (0 ≤ a.length ∧ [']', ']'] <:+ a) := by
    rintro a b hab ⟨-, hmark⟩
    obtain ⟨b', hab⟩ := exists_of_append (by simp) hab
    obtain ⟨a', rfl, rfl⟩ := exists_of_append_left (by simp) hab
    -- brackets that end what stands before it are no part of the opening, which ends with one that opens
    match a' with
    | [] => exact absurd hmark (by decide)
    | [c] =>
      rw [← List.reverse_prefix] at hmark
      simp at hmark
    | c :: d :: a' => exact h (infix_of_suffix hmark (by simp))
  have hcontent := @contentUpTo_eq [']', ']'] 0 rest
    (['[', 'C', 'D', 'A', 'T', 'A', '['] ++ cs ++ [']', ']']) [] hearlier (Nat.zero_le _) (List.suffix_append ..)
  have hopening : "[CDATA[".toList = ['[', 'C', 'D', 'A', 'T', 'A', '['] := by decide
  simp only [List.cons_append, List.nil_append, List.append_assoc, List.reverse_nil] at hcontent ⊢
  simp only [bang, hcontent, hopening]
  simp

theorem bang_comment {cs : List Char} (h : ¬ ['-', '-', '>'] <:+: cs) (rest : List Char) :
    bang (['-', '-'] ++ cs ++ ['-', '-'] ++ '>' :: rest) = .ok (.aside, rest) := by
  have hearlier : ∀ a b, ['-', '-'] ++ cs ++ ['-', '-'] = a ++ '>' :: b →
      ¬ (4 ≤ a.length ∧ ['-', '-'] <:+ a) := by
    rintro a b hab ⟨hlength, hmark⟩
    obtain ⟨b', hab⟩ := exists_of_append (by simp) hab
    obtain ⟨a', rfl, rfl⟩ := exists_of_append_left (by simp) hab
    exact h (infix_of_suffix hmark (by simpa using hlength))
  have hcontent := @contentUpTo_eq ['-', '-'] 4 rest (['-', '-'] ++ cs ++ ['-', '-']) []
    hearlier (by simp) (List.suffix_append ..)
  simp only [List.cons_append, List.nil_append, List.append_assoc, List.reverse_nil] at hcontent ⊢
  simp only [bang, hcontent]
  simp

theorem instruction_eq {cs : List Char} (hhead : cs.head? ≠ some '>') (h : ¬ ['?', '>'] <:+: cs) (rest : List Char) :
    instruction (cs ++ ['?'] ++ '>' :: rest) = .ok (.aside, rest) := by
  have hearlier : ∀ a b, cs ++ ['?'] = a ++ '>' :: b → ¬ (1 ≤ (['?'] ++ a).length ∧ ['?'] <:+ ['?'] ++ a) := by
    rintro a b hab ⟨-, hmark⟩
    obtain ⟨b', rfl⟩ := exists_of_append (by simp) hab
    cases a with
    | nil => exact hhead rfl
    | cons c a => exact h (infix_of_suffix hmark (by simp))
  have hcontent := @contentUpTo_eq ['?'] 1 rest (cs ++ ['?']) ['?'] hearlier (by simp)
    ⟨'?' :: cs, by simp⟩
  have hlength : ¬ (['?'].reverse ++ (cs ++ ['?'])).length < 2 := by simp
  rw [instruction, hcontent]
  simp only [hlength, if_false]

/-! ## Pieces are read one by one -/

/-- The event of a piece that is not part of a run of text. -/
def Piece.event? : Piece → Option Event
  | literal _ => none
  | cdata cs => some (.cdata (String.ofList cs))
  | reference name => some (.reference (String.ofList name))
  | comment _ | instruction _ => some .aside

section
variable {p : Piece} {e : Event}

theorem next_piece (h : p.Proper) (he : p.event? = some e) (opened : List String) (rest : List Char) :
    next opened (p.chars ++ rest) = .ok (some (e, opened, rest)) := by
  cases p with
  | literal c => cases he
  | cdata cs =>
    cases he
    have hbang := bang_cdata h rest
    simp only [Piece.chars, List.cons_append, List.nil_append, List.append_assoc] at hbang ⊢
    simp only [next, markup, hbang]
    rfl
  | reference name =>
    cases he
    have hreference := next_reference h opened rest
    simpa only [Piece.chars, List.cons_append, List.nil_append, List.append_assoc] using hreference
  | comment cs =>
    cases he
    have hbang := bang_comment (fun hmark => h ((List.prefix_append ['-', '-'] ['>']).isInfix.trans hmark)) rest
    simp only [Piece.chars, List.cons_append, List.nil_append, List.append_assoc] at hbang ⊢
    simp only [next, markup, hbang]
    rfl
  | instruction cs =>
    cases he
    have hinstruction := instruction_eq h.1 h.2 rest
    simp only [Piece.chars, List.cons_append, List.nil_append, List.append_assoc] at hinstruction ⊢
    simp only [next, markup, hinstruction]
    rfl

theorem adds_piece (current : Option String) (he : p.event? = some e) :
    Adds current [e] (String.ofList p.read) [] := by
  cases p with
  | literal c => cases he
  | cdata cs =>
    cases he
    exact .event current rfl
  | reference name =>
    cases he
    rw [Piece.read, String.ofList_toList]
    exact .event current rfl
  | comment _ | instruction _ =>
    cases he
    exact .event current rfl

theorem head_piece (he : p.event? = some e) (rest : List Char) :
    ∀ c ∈ (p.chars ++ rest).head?, isText c = false := by
  cases p with
  | literal c => cases he
  | _ => simp [Piece.chars, isText]

theorem length_piece (he : p.event? = some e) : 0 < p.chars.length := by
  cases p with
  | literal c => cases he
  | _ => simp [Piece.chars]

end

/-- A run of text in front of what is no text adds what it says. -/
theorem scans_run {current : Option String} {opened : List String} {run cs rest : List Char} {es : List Event}
    {t : List Char} (hrun : ∀ c ∈ run, isText c = true) (hcs : ∀ c ∈ cs.head?, isText c = false)
    (h : Scans opened cs es opened rest) (hadds : Adds current es (String.ofList t) []) :
    ∃ es', Scans opened (run ++ cs) es' opened rest ∧ Adds current es' (String.ofList (run ++ t)) [] := by
  refine ⟨textEvents run ++ es, h.run hrun hcs, adds_iff.2 fun scope hscope => ?_⟩
  rw [String.ofList_append]
  exact (AddsIn.run scope run).append (adds_iff.1 hadds scope hscope)

/-- Pieces behind a run of text that is still read on: a literal character makes the run longer, any other piece ends
it. -/
theorem scans_pieces (current : Option String) (opened : List String) (rest : List Char) :
    ∀ (ps : List Piece) (run : List Char), (∀ p ∈ ps, p.Proper) → (∀ c ∈ run, isText c = true) →
      ∃ es, Scans opened (run ++ (ps.flatMap Piece.chars ++ '<' :: rest)) es opened ('<' :: rest) ∧
        Adds current es (String.ofList (run ++ ps.flatMap Piece.read)) []
  | [], run, _, hrun =>
    scans_run hrun (by simp [isText]) (.refl _ _) (by simpa using Adds.nil current)
  | p :: ps, run, hps, hrun => by
    have hp := hps p List.mem_cons_self
    have hmore : ∀ q ∈ ps, q.Proper := fun q hq => hps q (List.mem_cons_of_mem p hq)
    cases he : p.event? with
    | none =>
      cases p with
      | literal c =>
        have hlonger : ∀ d ∈ run ++ [c], isText d = true := by
          intro d hd
          rcases List.mem_append.1 hd with hd | hd
          · exact hrun d hd
          · rw [List.mem_singleton.1 hd]
            simp [isText, hp.1, hp.2]
        have hall := scans_pieces current opened rest ps (run ++ [c]) hmore hlonger
        simpa [Piece.chars, Piece.read] using hall
      | _ => cases he
    | some e =>
      obtain ⟨es, hscans, hadds⟩ := scans_pieces current opened rest ps [] hmore (by simp)
      have hstep : Scans opened (p.chars ++ (ps.flatMap Piece.chars ++ '<' :: rest)) (e :: es) opened ('<' :: rest) := by
        refine .step (next_piece hp he opened _) ?_ hscans
        have := length_piece he
        simp only [List.length_append]
        omega
      have hread : Adds current (e :: es) (String.ofList (p.read ++ ps.flatMap Piece.read)) [] := by
        rw [String.ofList_append]
        exact (adds_piece current he).append hadds
      rw [List.flatMap_cons, List.flatMap_cons, List.append_assoc]
      exact scans_run hrun (head_piece he _) hstep hread

/-- A spelling of content is read, wherever it stands, piece by piece. -/
theorem fills_spelling (current : Option String) {ps : List Piece} (hps : ∀ p ∈ ps, p.Proper) :
    Fills current (ps.flatMap Piece.chars) (String.ofList (ps.flatMap Piece.read)) [] := fun opened rest =>
  scans_pieces current opened rest ps [] hps (by simp)

/-! ## What references mean -/

/-- The entities that are declared in every document. -/
def entities : List (List Char × Char) :=
  [(['q', 'u', 'o', 't'], '"'), (['a', 'p', 'o', 's'], '\''), (['a', 'm', 'p'], '&'), (['l', 't'], '<'), (['g', 't'], '>')]

/-- The ranges of the characters that a document may hold. -/
def documentRanges : List (Nat × Nat) := [(0x9, 0xa), (0xd, 0xd), (0x20, 0xd7ff), (0xe000, 0xfffd), (0x10000, 0x10ffff)]

/-- The character with that number, if a document may hold it. -/
def numbered? (n : Nat) : Option Char :=
  if documentRanges.any fun (a, b) => a ≤ n && n ≤ b then some (Char.ofNat n) else none

def digit? (base : Nat) (c : Char) : Option Nat :=
  let d :=
    if '0' ≤ c ∧ c ≤ '9' then c.toNat - '0'.toNat
    else if 'a' ≤ c ∧ c ≤ 'f' then c.toNat - 'a'.toNat + 10
    else if 'A' ≤ c ∧ c ≤ 'F' then c.toNat - 'A'.toNat + 10
    else base
  if d < base then some d else none

/-- The number that is written with these digits, at least one. -/
def numeral? (base : Nat) (ds : List Char) : Option Nat :=
  if ds.isEmpty then none else ds.foldlM (fun n d => (digit? base d).map (n * base + ·)) 0

/-- The character that a reference stands for: by its number, decimal or hexadecimal, or by the name of an entity. -/
def referred? : List Char → Option Char
  | '#' :: 'x' :: ds => (numeral? 16 ds).bind numbered?
  | '#' :: ds => (numeral? 10 ds).bind numbered?
  | name => entities.lookup name

/-- What a piece of content means, if it means anything. -/
def Piece.meaning? : Piece → Option (List Char)
  | literal c => some [c]
  | cdata cs => some cs
  | reference name => (referred? name).map ([·])
  | comment _ | instruction _ => some []

/-- What the pieces mean together. -/
def meaning? : List Piece → Option (List Char)
  | [] => some []
  | p :: ps => do
    let s ← p.meaning?
    let t ← meaning? ps
    some (s ++ t)

/-- Is it a reference to a character by its number? -/
def Piece.isNumbered : Piece → Bool
  | reference ('#' :: _) => true
  | _ => false

theorem isNumbered_iff {name : List Char} : (Piece.reference name).isNumbered = true ↔ ∃ ds, name = '#' :: ds := by
  unfold Piece.isNumbered
  split
  · rename_i heq
    cases heq
    simp
  · rename_i hno
    simp only [Bool.false_eq_true, false_iff]
    rintro ⟨ds, rfl⟩
    exact hno ds rfl

/-- Of references only the entities are decoded: of any other what stands between its marks is the text. -/
theorem read_reference (name : List Char) :
    (Piece.reference name).read = ((entities.lookup name).map ([·])).getD name := by
  cases hlookup : entities.lookup name with
  | some c =>
    have hentities : ∀ e ∈ entities, (Piece.reference e.1).read = [e.2] := by decide
    obtain ⟨before, others, hsplit, -⟩ := List.lookup_eq_some_iff.1 hlookup
    exact hentities (name, c) (hsplit ▸ List.mem_append_right before List.mem_cons_self)
  | none =>
    have hname : ∀ s : String, String.ofList name = s ↔ name = s.toList := fun s => by
      rw [← String.toList_inj, String.toList_ofList]
    have hother : ∀ e ∈ entities, name ≠ e.1 := by simpa [List.lookup_eq_none_iff] using hlookup
    simp only [entities, List.forall_mem_cons] at hother
    simp [Piece.read, referenceText, hname, hother]

theorem lookup_numbered (ds : List Char) : entities.lookup ('#' :: ds) = none := by
  simp [List.lookup_eq_none_iff, entities]

/-- What a reference by number means is less than what stands between its marks. -/
theorem length_numbered {ds : List Char} {c : Char} (h : referred? ('#' :: ds) = some c) : 0 < ds.length := by
  cases ds with
  | nil => simp [referred?, numeral?] at h
  | cons d ds => simp

theorem referred?_entity {name : List Char} (h : (Piece.reference name).isNumbered = false) :
    referred? name = entities.lookup name := by
  unfold referred?
  split
  · cases h
  · cases h
  · rfl

/-- A piece is read as what it means, but for a reference by number, for which more is read. -/
theorem read_of_meaning {p : Piece} {s : List Char} (h : p.meaning? = some s) :
    if p.isNumbered then s.length < p.read.length else p.read = s := by
  cases p with
  | literal _ | cdata _ | comment _ | instruction _ => simpa [Piece.isNumbered, Piece.meaning?, Piece.read] using h
  | reference name =>
    obtain ⟨c, hc, rfl⟩ := Option.map_eq_some_iff.1 h
    rw [read_reference]
    split
    · rename_i hnumbered
      obtain ⟨ds, rfl⟩ := isNumbered_iff.1 hnumbered
      have := length_numbered hc
      simpa [lookup_numbered] using this
    · rename_i hnumbered
      rw [← referred?_entity (by simpa using hnumbered), hc]
      rfl

theorem read_of_meanings : ∀ {ps : List Piece} {s : List Char}, meaning? ps = some s →
    s.length ≤ (ps.flatMap Piece.read).length ∧
      (ps.flatMap Piece.read = s ↔ ∀ p ∈ ps, p.isNumbered = false)
  | [], s, h => by
    cases h
    simp
  | p :: ps, s, h => by
    obtain ⟨first, hfirst, h⟩ := Option.bind_eq_some_iff.1 h
    obtain ⟨others, hothers, h⟩ := Option.bind_eq_some_iff.1 h
    cases h
    obtain ⟨hlength, hiff⟩ := read_of_meanings hothers
    have hread := read_of_meaning hfirst
    rw [List.flatMap_cons, List.length_append, List.length_append, List.forall_mem_cons, ← hiff]
    by_cases hnumbered : p.isNumbered = true
    · rw [if_pos hnumbered] at hread
      refine ⟨by omega, fun heq => ?_, fun heq => ?_⟩
      · -- more is read than is meant
        have := congrArg List.length heq
        simp only [List.length_append] at this
        omega
      · rw [hnumbered] at heq
        cases heq.1
    · rw [if_neg hnumbered] at hread
      subst hread
      exact ⟨by omega, by simp [hnumbered]⟩

/-! ## Documents -/

section
variable {name : String} {ns : Option String} {ps : List Piece}

theorem parse_spelling (h : IsName name) (hns : ∀ n ∈ ns, IsNamespace n) (hps : ∀ p ∈ ps, p.Proper) :
    parse (String.ofList (startTagChars none name ns ++ ps.flatMap Piece.chars ++ endTagChars name)) =
      .ok (.mk ns name (String.ofList (ps.flatMap Piece.read)) []) :=
  parse_element h hns (fills_spelling ns hps)

/-- Every spelling of the content of an element is read, each piece as text of its own: literal characters and CDATA
sections as they are, comments and instructions as nothing, and of references the five entities, but any other as what
stands between its marks, be it the number of a character or the name of no entity. So the content is what its spelling
means just if no character is referred to by its number. -/
theorem content_of_spelling (h : IsName name) (hns : ∀ n ∈ ns, IsNamespace n) (hps : ∀ p ∈ ps, p.Proper) :
    parse (String.ofList (startTagChars none name ns ++ ps.flatMap Piece.chars ++ endTagChars name)) =
        .ok (.mk ns name (String.ofList (ps.flatMap Piece.read)) []) ∧
      (∀ x, (Piece.reference x).read = ((entities.lookup x).map ([·])).getD x) ∧
      ∀ s, meaning? ps = some s → (ps.flatMap Piece.read = s ↔ ∀ p ∈ ps, p.isNumbered = false) :=
  ⟨parse_spelling h hns hps, read_reference, fun _ hs => (read_of_meanings hs).2⟩

end

/-- Text with a piece of each kind. -/
def mixed : List Piece :=
  [.literal 'x', .cdata ['<', '&'], .comment [' '], .reference ['l', 't'], .instruction ['p']]

theorem content_of_mixed : IsName "a" ∧ (∀ n ∈ (none : Option String), IsNamespace n) ∧ (∀ p ∈ mixed, p.Proper) ∧
    parse "<a>x<![CDATA[<&]]><!-- -->&lt;<?p?></a>" = .ok (.mk none "a" "x<&<" []) ∧
    meaning? mixed = some "x<&<".toList :=
  ⟨by decide, by simp, by decide, (@content_of_spelling "a" none mixed (by decide) (by simp) (by decide)).1, by decide⟩

/-- An `A` that is referred to by its number is read as the number, and a name that no entity has is no error. -/
theorem numbered_notDecoded :
    (meaning? [.reference ['#', '6', '5']] = some ['A'] ∧ parse "<a>&#65;</a>" = .ok (.mk none "a" "#65" [])) ∧
      meaning? [.reference ['f', 'o', 'o']] = none ∧ parse "<a>&foo;</a>" = .ok (.mk none "a" "foo" []) :=
  ⟨⟨by decide, @parse_spelling "a" none [.reference ['#', '6', '5']] (by decide) (by simp) (by decide)⟩, by decide,
    @parse_spelling "a" none [.reference ['f', 'o', 'o']] (by decide) (by simp) (by decide)⟩

end YangSubscriptions.Xml
