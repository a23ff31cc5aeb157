import YangSubscriptions.Proofs.Except
import YangSubscriptions.Proofs.Xml.Spelling

/-!
# Tokens of markup

What one event is read from: a run of text, a reference, a CDATA section, markup that is passed over, a start tag or an
empty element (`Token`), and an end tag (`EndTag`). The scan takes just such a token from the front of a text
(`taken_of_next`), and takes it whatever follows (`next_of_token`, `next_of_endTag`); only a run of text must end where
text ends.
-/

namespace YangSubscriptions.Xml

/-! ## Markup that is passed over -/

/-- What is found up to a mark ends with it, and with none that comes earlier. -/
theorem contentUpTo_eq_some {mark : List Char} {least : Nat} : ∀ {cs seen content rest : List Char},
    contentUpTo mark least seen cs = some (content, rest) →
    ∃ body, cs = body ++ '>' :: rest ∧ content = seen.reverse ++ body ∧ least ≤ content.length ∧ mark <:+ content ∧
      ∀ a b, body = a ++ '>' :: b → ¬ (least ≤ (seen.reverse ++ a).length ∧ mark <:+ seen.reverse ++ a)
  | [], _, _, _, h => by cases h
  | c :: cs, seen, content, rest, h => by
    have hmark : mark.reverse.isPrefixOf seen = true ↔ mark <:+ seen.reverse := by
      rw [List.isPrefixOf_iff_prefix, ← List.reverse_prefix, List.reverse_reverse]
    rw [contentUpTo] at h
    split at h
    · rename_i hend
      obtain ⟨rfl, hlength, hseen⟩ := hend
      cases h
      exact ⟨[], rfl, by simp, by simpa using hlength, hmark.1 hseen, by simp⟩
    · rename_i hnot
      obtain ⟨body, rfl, rfl, hlength, hends, hearlier⟩ := contentUpTo_eq_some h
      have hshift : ∀ a : List Char, (c :: seen).reverse ++ a = seen.reverse ++ c :: a := fun a => by simp
      refine ⟨c :: body, rfl, hshift body, hlength, hends, ?_⟩
      intro a b hab
      cases a with
      | nil =>
        cases hab
        rintro ⟨hl, hm⟩
        rw [List.append_nil] at hl hm
        exact hnot ⟨rfl, by simpa using hl, hmark.2 hm⟩
      | cons d a =>
        cases hab
        rw [← hshift]
        exact hearlier a b rfl

/-- Characters whose angle brackets close the `depth` that are open, and each other. -/
inductive Nested : Nat → List Char → Prop
  | nil : Nested 0 []
  | opening {depth : Nat} {cs : List Char} : Nested (depth + 1) cs → Nested depth ('<' :: cs)
  | closing {depth : Nat} {cs : List Char} : Nested depth cs → Nested (depth + 1) ('>' :: cs)
  | other {depth : Nat} {c : Char} {cs : List Char} : c ≠ '<' → c ≠ '>' → Nested depth cs → Nested depth (c :: cs)

theorem balanced_of_nested {depth : Nat} {cs : List Char} (h : Nested depth cs) (rest : List Char) :
    balanced depth (cs ++ '>' :: rest) = some (cs, rest) := by
  induction h with
  | nil => simp [balanced]
  | opening _ ih => simp [balanced, ih]
  | closing _ ih => simp [balanced, ih]
  | other hopen hclose _ ih => simp [balanced, hopen, hclose, ih]

theorem nested_of_balanced : ∀ {cs : List Char} {depth : Nat} {a rest : List Char},
    balanced depth cs = some (a, rest) → cs = a ++ '>' :: rest ∧ Nested depth a
  | [], _, _, _, h => by cases h
  | c :: cs, depth, a, rest, h => by
    rw [balanced] at h
    split at h
    · rename_i hend
      obtain ⟨rfl, rfl⟩ := hend
      cases h
      exact ⟨rfl, .nil⟩
    · rename_i hnot
      obtain ⟨⟨a', b⟩, hbelow, heq⟩ := Option.map_eq_some_iff.1 h
      cases heq
      obtain ⟨rfl, hnested⟩ := nested_of_balanced hbelow
      refine ⟨rfl, ?_⟩
      by_cases hopen : c = '<'
      · subst hopen
        exact .opening (by simpa using hnested)
      · by_cases hclose : c = '>'
        · subst hclose
          obtain ⟨d, rfl⟩ := Nat.exists_eq_succ_of_ne_zero fun hdepth => hnot ⟨rfl, hdepth⟩
          exact .closing (by simpa using hnested)
        · exact .other hopen hclose (by simpa [hopen, hclose] using hnested)

/-- Comments, instructions and document types. -/
inductive IsAside : List Char → Prop
  | comment {cs : List Char} (h : ¬ ['-', '-', '>'] <:+: cs) :
    IsAside ('<' :: '!' :: (['-', '-'] ++ cs ++ ['-', '-', '>']))
  | instruction {cs : List Char} (hhead : cs.head? ≠ some '>') (h : ¬ ['?', '>'] <:+: cs) :
    IsAside ('<' :: '?' :: (cs ++ ['?', '>']))
  | doctype {cs : List Char} (hword : (cs.take 7).map Char.toUpper = "DOCTYPE".toList)
    (hname : (cs.drop 7).all isBlank = false) (h : Nested 0 cs) : IsAside ('<' :: '!' :: (cs ++ ['>']))

theorem toUpper_eq_D {c : Char} (h : c.toUpper = 'D') : c = 'D' ∨ c = 'd' := by
  unfold Char.toUpper at h
  split at h
  · rename_i hlower
    right
    have hval := congrArg Char.val h
    have hback : c.val = 'd'.val := by
      simp only at hval
      have : c.val + ('A'.val - 'a'.val) - ('A'.val - 'a'.val) = 'D'.val - ('A'.val - 'a'.val) := by rw [hval]
      simpa using this
    exact Char.ext hback
  · exact .inl h

theorem bang_doctype {cs : List Char} (hword : (cs.take 7).map Char.toUpper = "DOCTYPE".toList)
    (hname : (cs.drop 7).all isBlank = false) (h : Nested 0 cs) (rest : List Char) :
    bang (cs ++ '>' :: rest) = .ok (.aside, rest) := by
  have hbalanced := balanced_of_nested h rest
  cases cs with
  | nil => cases hword
  | cons c cs =>
    have hupper : c.toUpper = 'D' := by
      rw [List.take_succ_cons, List.map_cons] at hword
      exact (List.cons.inj hword).1
    have hhead := toUpper_eq_D hupper
    have hopen : c ≠ '[' ∧ c ≠ '-' := by
      rcases hhead with rfl | rfl <;> decide
    rw [List.cons_append] at hbalanced ⊢
    unfold bang
    split
    · rename_i heq
      exact absurd (List.cons.inj heq).1 hopen.1
    · rename_i heq
      exact absurd (List.cons.inj heq).1 hopen.2
    · rename_i d r hno hno' heq
      obtain ⟨rfl, rfl⟩ := List.cons.inj heq
      rw [if_pos hhead, hbalanced]
      simp only [hword, if_true, hname]
      rfl
    · rename_i heq
      cases heq

/-! ## Tags -/

/-- What stands between the brackets of a tag: no `>` outside quotes, and every quote is closed. -/
inductive TagText : List Char → Prop
  | nil : TagText []
  | char {c : Char} {cs : List Char} : c ≠ '>' → c ≠ '\'' → c ≠ '"' → TagText cs → TagText (c :: cs)
  | quoted {q : Char} {body cs : List Char} : q = '\'' ∨ q = '"' → q ∉ body → TagText cs →
    TagText (q :: (body ++ q :: cs))

theorem tagContent_of_tagText {cs : List Char} (h : TagText cs) (rest : List Char) :
    tagContent none (cs ++ '>' :: rest) = some (cs, rest) := by
  induction h with
  | nil => simp [tagContent]
  | char hclose hsingle hdouble _ ih => simp [tagContent, hclose, hsingle, hdouble, ih]
  | @quoted q body cs hq hbody _ ih =>
    have hopen : q ≠ '>' := by rcases hq with rfl | rfl <;> decide
    rw [List.cons_append, List.append_assoc, List.cons_append, tagContent]
    simp only [hopen, if_false, hq, if_true]
    rw [tagContent_quoted hbody, ih]
    rfl

/-- Within a quote the content runs on to its end. -/
theorem exists_of_tagContent_quoted {q : Char} : ∀ {cs a rest : List Char},
    tagContent (some q) cs = some (a, rest) →
    ∃ body r a', q ∉ body ∧ cs = body ++ q :: r ∧ a = body ++ q :: a' ∧ tagContent none r = some (a', rest)
  | [], _, _, h => by cases h
  | c :: cs, a, rest, h => by
    rw [tagContent] at h
    obtain ⟨⟨a', b⟩, hbelow, heq⟩ := Option.map_eq_some_iff.1 h
    cases heq
    by_cases hc : c = q
    · subst hc
      rw [if_pos rfl] at hbelow
      exact ⟨[], cs, a', by simp, rfl, rfl, hbelow⟩
    · rw [if_neg hc] at hbelow
      obtain ⟨body, r, a'', hbody, rfl, rfl, hrest⟩ := exists_of_tagContent_quoted hbelow
      exact ⟨c :: body, r, a'', by simp [hbody, Ne.symm hc], rfl, rfl, hrest⟩

theorem tagText_of_tagContent (cs : List Char) {a rest : List Char} (h : tagContent none cs = some (a, rest)) :
    cs = a ++ '>' :: rest ∧ TagText a := by
  match cs with
  | [] => cases h
  | c :: cs =>
    rw [tagContent] at h
    simp only at h
    split at h
    · rename_i hclose
      subst hclose
      cases h
      exact ⟨rfl, .nil⟩
    · rename_i hclose
      obtain ⟨⟨a', b⟩, hbelow, heq⟩ := Option.map_eq_some_iff.1 h
      cases heq
      by_cases hq : c = '\'' ∨ c = '"'
      · rw [if_pos hq] at hbelow
        obtain ⟨body, r, a'', hbody, hcs, rfl, hrest⟩ := exists_of_tagContent_quoted hbelow
        obtain ⟨rfl, htext⟩ := tagText_of_tagContent r hrest
        subst hcs
        exact ⟨by simp, .quoted hq hbody htext⟩
      · rw [if_neg hq] at hbelow
        obtain ⟨rfl, htext⟩ := tagText_of_tagContent cs hbelow
        exact ⟨rfl, .char hclose (fun h => hq (.inl h)) (fun h => hq (.inr h)) htext⟩
termination_by cs.length
decreasing_by
  · subst hcs
    simp only [List.length_append, List.length_cons]
    omega
  · simp

/-! ## Tokens -/

/-- What an event other than an end tag is read from. -/
inductive Token : List Char → Event → Prop
  | text {cs : List Char} (hne : cs ≠ []) (h : ∀ c ∈ cs, isText c = true) : Token cs (.text (String.ofList cs))
  | reference {name : List Char} (h : ∀ c ∈ name, c ≠ ';' ∧ c ≠ '&' ∧ c ≠ '<') :
    Token ('&' :: (name ++ [';'])) (.reference (String.ofList name))
  | cdata {cs : List Char} (h : ¬ [']', ']', '>'] <:+: cs) :
    Token ('<' :: '!' :: (['[', 'C', 'D', 'A', 'T', 'A', '['] ++ cs ++ [']', ']', '>'])) (.cdata (String.ofList cs))
  | aside {cs : List Char} (h : IsAside cs) : Token cs .aside
  | tag {cs : List Char} {e : Event} (hhead : ∀ c ∈ cs.head?, c ≠ '!' ∧ c ≠ '?' ∧ c ≠ '/') (h : TagText cs)
    (hread : startTag cs = .ok e) : Token ('<' :: (cs ++ ['>'])) e

/-- An end tag of that name. -/
def EndTag (a : List Char) (name : String) : Prop :=
  ∃ cs, TagText cs ∧ a = '<' :: '/' :: (cs ++ ['>']) ∧ String.ofList (endName cs) = name

/-- The name that an event adds to those of the open elements. -/
def Event.opens : Event → List String
  | .opening name _ => [name]
  | _ => []

/-- With these elements open, the event is read from that text and leaves those open. -/
inductive Taken : List String → List Char → Event → List String → Prop
  | token {opened : List String} {a : List Char} {e : Event} (h : Token a e) : Taken opened a e (e.opens ++ opened)
  | closing {opened : List String} {a : List Char} {name : String} (h : EndTag a name) :
    Taken (name :: opened) a .closing opened

theorem Taken.of_token {opened : List String} {a : List Char} {e : Event} (h : Token a e) (hopens : e.opens = []) :
    Taken opened a e opened := by
  have htaken := @Taken.token opened a e h
  rwa [hopens] at htaken

theorem startTag_cases {cs : List Char} {e : Event} (h : startTag cs = .ok e) :
    (∃ name bs, e = .opening name bs) ∨ ∃ name bs, e = .empty name bs := by
  unfold startTag at h
  simp only [bind, Except.bind] at h
  split at h
  · cases h
  · split at h
    · cases h
      exact .inr ⟨_, _, rfl⟩
    · cases h
      exact .inl ⟨_, _, rfl⟩

/-- A token has a character at least, and markup begins with a bracket. -/
theorem Token.exists_head {a : List Char} {e : Event} (h : Token a e) :
    ∃ c r, a = c :: r ∧ (isText c = true ↔ ∃ s, e = .text s) := by
  cases h with
  | @text cs hne h =>
    cases a with
    | nil => exact absurd rfl hne
    | cons c r => exact ⟨c, r, rfl, by simp [h c List.mem_cons_self]⟩
  | reference h => exact ⟨_, _, rfl, by simp [isText]⟩
  | cdata h => exact ⟨_, _, rfl, by simp [isText]⟩
  | aside h => cases h <;> exact ⟨_, _, rfl, by simp [isText]⟩
  | tag _ _ hread =>
    refine ⟨_, _, rfl, ?_⟩
    rcases startTag_cases hread with ⟨name, bs, rfl⟩ | ⟨name, bs, rfl⟩ <;> simp [isText]

/-- A tag that is no end tag is read by what is between its brackets. -/
theorem markup_of_tagText (opened : List String) {cs rest : List Char}
    (hhead : ∀ c ∈ cs.head?, c ≠ '!' ∧ c ≠ '?' ∧ c ≠ '/') (h : TagText cs) :
    markup opened (cs ++ '>' :: rest) = (startTag cs).map fun e => (e, e.opens ++ opened, rest) := by
  have hcontent := tagContent_of_tagText h rest
  have hno : ∀ c ∈ (cs ++ '>' :: rest).head?, c ≠ '!' ∧ c ≠ '?' ∧ c ≠ '/' := by
    cases cs with
    | nil => simp
    | cons c cs => simpa using hhead
  unfold markup
  split
  · rename_i heq
    simp at heq
  · rename_i heq
    rw [heq] at hno
    simp at hno
  · rename_i heq
    rw [heq] at hno
    simp at hno
  · rename_i heq
    rw [heq] at hno
    simp at hno
  · cases hread : startTag cs with
    | error fault =>
      simp only [hcontent, hread]
      rfl
    | ok e =>
      simp only [hcontent, hread]
      rcases startTag_cases hread with ⟨name, bs, rfl⟩ | ⟨name, bs, rfl⟩ <;> rfl

/-- A token is taken from the front of a text. -/
theorem next_of_token {a : List Char} {e : Event} (h : Token a e) (opened : List String) {rest : List Char}
    (hrest : ∀ s, e = .text s → ∀ c ∈ rest.head?, isText c = false) :
    next opened (a ++ rest) = .ok (some (e, e.opens ++ opened, rest)) := by
  cases h with
  | text hne h => exact next_text hne h (hrest _ rfl) opened
  | reference h => simpa [Event.opens] using next_reference h opened rest
  | cdata h =>
    have hbang := bang_cdata h rest
    simp only [List.cons_append, List.nil_append, List.append_assoc] at hbang ⊢
    simp only [next, markup, hbang]
    rfl
  | aside h =>
    cases h with
    | comment h =>
      have hbang := bang_comment h rest
      simp only [List.cons_append, List.nil_append, List.append_assoc] at hbang ⊢
      simp only [next, markup, hbang]
      rfl
    | instruction hhead h =>
      have hinstruction := instruction_eq hhead h rest
      simp only [List.cons_append, List.nil_append, List.append_assoc] at hinstruction ⊢
      simp only [next, markup, hinstruction]
      rfl
    | doctype hword hname h =>
      have hbang := bang_doctype hword hname h rest
      simp only [List.cons_append, List.nil_append, List.append_assoc] at hbang ⊢
      simp only [next, markup, hbang]
      rfl
  | tag hhead h hread =>
    have hmarkup : markup opened (_ ++ '>' :: rest) = _ := markup_of_tagText opened hhead h
    rw [hread] at hmarkup
    simp only [List.cons_append, List.nil_append, List.append_assoc] at hmarkup ⊢
    rw [next, hmarkup]
    rfl

theorem next_of_endTag {a : List Char} {name : String} (h : EndTag a name) (opened : List String) (rest : List Char) :
    next (name :: opened) (a ++ rest) = .ok (some (.closing, opened, rest)) := by
  obtain ⟨cs, htext, rfl, rfl⟩ := h
  have hcontent := tagContent_of_tagText htext rest
  simp only [List.cons_append, List.nil_append, List.append_assoc]
  rw [next, markup, hcontent]
  simp only [if_true]
  rfl

/-! ## What is taken is a token -/

/-- In what a section begins and ends with, there is no earlier end. -/
theorem not_infix_of_earlier {mark opening body : List Char}
    (h : ∀ a b, opening ++ body ++ mark = a ++ '>' :: b → ¬ mark <:+ a) : ¬ mark ++ ['>'] <:+: body := by
  rintro ⟨u, v, rfl⟩
  exact h (opening ++ u ++ mark) (v ++ mark) (by simp) (List.suffix_append ..)

theorem token_of_bang {cs rest : List Char} {e : Event} (h : bang cs = .ok (e, rest)) :
    ∃ a, cs = a ++ rest ∧ Token ('<' :: '!' :: a) e ∧ e.opens = [] := by
  unfold bang at h
  split at h
  · split at h
    · cases h
    · rename_i r content rest' hcontent
      have hopening : "[CDATA[".toList = ['[', 'C', 'D', 'A', 'T', 'A', '['] := by decide
      split at h
      · rename_i hprefix
        cases h
        rw [List.isPrefixOf_iff_prefix, hopening] at hprefix
        obtain ⟨body, hcs, hbody, -, hmark, hearlier⟩ := contentUpTo_eq_some hcontent
        rw [List.reverse_nil, List.nil_append] at hbody
        subst hbody
        obtain ⟨x, rfl⟩ := hprefix
        -- the mark at the end is apart from the opening, which does not end with one of its brackets
        have hends : [']', ']'] <:+ x := by
          refine List.suffix_of_suffix_length_le hmark (List.suffix_append _ x) ?_
          match x, hmark with
          | [], hmark => exact absurd hmark (by decide)
          | [c], hmark =>
            rw [← List.reverse_prefix] at hmark
            simp at hmark
          | _ :: _ :: _, _ => simp
        obtain ⟨y, rfl⟩ := hends
        refine ⟨['[', 'C', 'D', 'A', 'T', 'A', '['] ++ y ++ [']', ']', '>'], by rw [hcs]; simp, ?_⟩
        have hno : ¬ [']', ']'] ++ ['>'] <:+: y := not_infix_of_earlier fun a b hab hsuffix =>
          hearlier a b (by rw [← List.append_assoc]; exact hab) ⟨by simp, by simpa using hsuffix⟩
        have hinside : ((['[', 'C', 'D', 'A', 'T', 'A', '['] ++ (y ++ [']', ']'])).drop 7).take
            ((['[', 'C', 'D', 'A', 'T', 'A', '['] ++ (y ++ [']', ']'])).length - 9) = y := by simp
        rw [hinside]
        exact ⟨.cdata hno, rfl⟩
      · cases h
  · split at h
    · cases h
    · rename_i r content rest' hcontent
      split at h
      · rename_i hprefix
        cases h
        rw [List.isPrefixOf_iff_prefix] at hprefix
        obtain ⟨body, hcs, hbody, hlength, hmark, hearlier⟩ := contentUpTo_eq_some hcontent
        rw [List.reverse_nil, List.nil_append] at hbody
        subst hbody
        obtain ⟨x, rfl⟩ := hprefix
        have hends : ['-', '-'] <:+ x := by
          refine List.suffix_of_suffix_length_le hmark (List.suffix_append _ x) ?_
          simp only [List.length_append, List.length_cons, List.length_nil] at hlength ⊢
          omega
        obtain ⟨y, rfl⟩ := hends
        refine ⟨['-', '-'] ++ y ++ ['-', '-', '>'], by rw [hcs]; simp, ?_⟩
        have hno : ¬ ['-', '-', '>'] <:+: y := by
          rintro ⟨u, v, rfl⟩
          refine hearlier (['-', '-'] ++ u ++ ['-', '-']) (v ++ ['-', '-']) (by simp) ⟨by simp, ?_⟩
          exact List.suffix_append _ _
        exact ⟨.aside (.comment hno), rfl⟩
      · cases h
  · rename_i c r hno hno'
    split at h
    · split at h
      · cases h
      · rename_i content rest' hcontent
        split at h
        · rename_i hword
          split at h
          · cases h
          · rename_i hname
            cases h
            obtain ⟨hcs, hnested⟩ := nested_of_balanced hcontent
            refine ⟨content ++ ['>'], by rw [hcs]; simp, .aside (.doctype hword ?_ hnested), rfl⟩
            simpa using hname
        · cases h
    · cases h
  · cases h

theorem token_of_instruction {cs rest : List Char} {e : Event} (h : instruction cs = .ok (e, rest)) :
    ∃ a, cs = a ++ rest ∧ Token ('<' :: '?' :: a) e ∧ e.opens = [] := by
  unfold instruction at h
  split at h
  · cases h
  · rename_i content rest' hcontent
    split at h
    · cases h
    · rename_i hlength
      cases h
      obtain ⟨body, hcs, hbody, -, hmark, hearlier⟩ := contentUpTo_eq_some hcontent
      rw [List.reverse_singleton, List.singleton_append] at hbody
      subst hbody
      have hends : ['?'] <:+ body := by
        refine List.suffix_of_suffix_length_le hmark (List.suffix_cons _ body) ?_
        simp only [List.length_cons, List.length_nil] at hlength ⊢
        omega
      obtain ⟨y, rfl⟩ := hends
      refine ⟨y ++ ['?', '>'], by rw [hcs]; simp, .aside (.instruction ?_ ?_), rfl⟩
      · intro hhead
        obtain ⟨z, rfl⟩ := List.head?_eq_some_iff.1 hhead
        exact hearlier [] (z ++ ['?']) (by simp) ⟨by simp, by simp⟩
      · rintro ⟨u, v, rfl⟩
        exact hearlier (u ++ ['?']) (v ++ ['?']) (by simp) ⟨by simp, ⟨'?' :: u, by simp⟩⟩

theorem token_of_reference {cs rest : List Char} {e : Event} (h : reference cs = .ok (e, rest)) :
    ∃ a, cs = a ++ rest ∧ Token ('&' :: a) e ∧ e.opens = [] := by
  unfold reference at h
  simp only at h
  split at h
  · rename_i rest' hstop
    cases h
    have hsplit := List.takeWhile_append_dropWhile (p := fun c => c ≠ ';' && c ≠ '&' && c ≠ '<') (l := cs)
    rw [hstop] at hsplit
    refine ⟨_ ++ [';'], ?_, .reference fun c hc => ?_, rfl⟩
    · rw [List.append_assoc]
      exact hsplit.symm
    · simpa [and_assoc] using List.mem_takeWhile_imp hc
  · cases h

theorem taken_of_markup {opened opened' : List String} {cs rest : List Char} {e : Event}
    (h : markup opened cs = .ok (e, opened', rest)) : ∃ a, '<' :: cs = a ++ rest ∧ Taken opened a e opened' := by
  unfold markup at h
  split at h
  · cases h
  · obtain ⟨⟨e', rest'⟩, hbang, heq⟩ := exists_ok_of_bind h
    cases heq
    obtain ⟨a, rfl, htoken, hopens⟩ := token_of_bang hbang
    exact ⟨'<' :: '!' :: a, rfl, .of_token htoken hopens⟩
  · obtain ⟨⟨e', rest'⟩, hinstruction, heq⟩ := exists_ok_of_bind h
    cases heq
    obtain ⟨a, rfl, htoken, hopens⟩ := token_of_instruction hinstruction
    exact ⟨'<' :: '?' :: a, rfl, .of_token htoken hopens⟩
  · split at h
    · cases h
    · rename_i content rest' hcontent
      obtain ⟨rfl, htext⟩ := tagText_of_tagContent _ hcontent
      split at h
      · cases h
      · simp only at h
        split at h
        · rename_i hname
          cases h
          exact ⟨'<' :: '/' :: (content ++ ['>']), by simp, .closing ⟨content, htext, rfl, hname⟩⟩
        · cases h
  · rename_i hbang hinstruction hclosing
    split at h
    · cases h
    · rename_i content rest' hcontent
      obtain ⟨rfl, htext⟩ := tagText_of_tagContent _ hcontent
      have hhead : ∀ c ∈ content.head?, c ≠ '!' ∧ c ≠ '?' ∧ c ≠ '/' := by
        intro c hc
        obtain ⟨r, rfl⟩ := List.head?_eq_some_iff.1 hc
        exact ⟨fun hd => hbang _ (by rw [hd]; rfl), fun hd => hinstruction _ (by rw [hd]; rfl),
          fun hd => hclosing _ (by rw [hd]; rfl)⟩
      obtain ⟨e', hread, h⟩ := exists_ok_of_bind h
      rcases startTag_cases hread with ⟨name, bs, rfl⟩ | ⟨name, bs, rfl⟩ <;> cases h
      · exact ⟨'<' :: (content ++ ['>']), by simp, .token (.tag hhead htext hread)⟩
      · exact ⟨'<' :: (content ++ ['>']), by simp, .token (.tag hhead htext hread)⟩

/-- What the scan takes from the front of a text is a token, or the end tag of the innermost open element. -/
theorem taken_of_next {opened opened' : List String} {cs rest : List Char} {e : Event}
    (h : next opened cs = .ok (some (e, opened', rest))) : ∃ a, cs = a ++ rest ∧ Taken opened a e opened' := by
  unfold next at h
  split at h
  · cases h
  · rename_i r
    obtain ⟨⟨e', o, rest'⟩, hmarkup, heq⟩ := exists_ok_of_map h
    cases heq
    exact taken_of_markup hmarkup
  · rename_i r
    obtain ⟨⟨e', rest'⟩, hreference, heq⟩ := exists_ok_of_map h
    cases heq
    obtain ⟨a, rfl, htoken, hopens⟩ := token_of_reference hreference
    exact ⟨'&' :: a, rfl, .of_token htoken hopens⟩
  · rename_i hne hmark hreference
    cases h
    refine ⟨cs.takeWhile isText, List.takeWhile_append_dropWhile.symm, .token (.text ?_ ?_)⟩
    · cases cs with
      | nil => exact absurd rfl hne
      | cons c r =>
        have hc : isText c = true := by
          simp only [isText, Bool.and_eq_true, decide_eq_true_eq]
          exact ⟨fun hd => hmark _ (by rw [hd]), fun hd => hreference _ (by rw [hd])⟩
        simp [hc]
    · exact fun c hc => List.mem_takeWhile_imp hc

end YangSubscriptions.Xml
