import YangSubscriptions.Proofs.Text.Blank
import YangSubscriptions.Xml.Element
import YangSubscriptions.Xml.Writer

/-!
# Tags are read as they are written

What the writer puts into tags are names without a colon and, where the default namespace changes, its declaration.
The scan gives back just these: a start tag, an empty element and an end tag are one event each
(`next_startTag`, `next_emptyTag`, `next_endTag`), text and references as well. All of it rests on a name having no
character that means something in a tag (`IsName.not_mark`).
-/

namespace YangSubscriptions.Xml

/-! ## Names -/

/-- The ranges of characters that may begin a name, but for the colon. -/
def nameStarts : List (Nat × Nat) :=
  [(0x41, 0x5a), (0x5f, 0x5f), (0x61, 0x7a), (0xc0, 0xd6), (0xd8, 0xf6), (0xf8, 0x2ff), (0x370, 0x37d),
    (0x37f, 0x1fff), (0x200c, 0x200d), (0x2070, 0x218f), (0x2c00, 0x2fef), (0x3001, 0xd7ff), (0xf900, 0xfdcf),
    (0xfdf0, 0xfffd), (0x10000, 0xeffff)]

/-- The ranges of further characters of a name: hyphen, point, digits and combining marks. -/
def nameParts : List (Nat × Nat) := [(0x2d, 0x2e), (0x30, 0x39), (0xb7, 0xb7), (0x300, 0x36f), (0x203f, 0x2040)]

def within (ranges : List (Nat × Nat)) (c : Char) : Bool := ranges.any fun (a, b) => a ≤ c.toNat && c.toNat ≤ b

def isNameChar (c : Char) : Bool := within nameStarts c || within nameParts c

/-- A name of XML without a colon. -/
def IsName (s : String) : Prop := s.toList.head?.any (within nameStarts) = true ∧ s.toList.all isNameChar = true

instance (s : String) : Decidable (IsName s) := inferInstanceAs (Decidable (_ ∧ _))

/-- What has a meaning in tags. -/
def marks : List Char := ['<', '>', '/', '!', '?', '=', '\'', '"', '&', ':', ' ', '\t', '\n', '\x0d']

theorem not_mark {c : Char} (h : isNameChar c = true) : c ∉ marks := by
  intro hc
  have hno : (marks.all fun d => !isNameChar d) = true := by decide
  have := List.all_eq_true.1 hno c hc
  simp [h] at this

theorem isBlank_eq_false {c : Char} (h : c ∉ marks) : isBlank c = false := by
  simp only [marks, List.mem_cons, not_or] at h
  simp [isBlank, h]

/-! ## Tags -/

/-- Characters that mean nothing to a tag's end. -/
def Plain (a : List Char) : Prop := ∀ c ∈ a, c ≠ '>' ∧ c ≠ '\'' ∧ c ≠ '"'

theorem tagContent_plain {a : List Char} (h : Plain a) (r : List Char) :
    tagContent none (a ++ r) = (tagContent none r).map fun (x, y) => (a ++ x, y) := by
  induction a with
  | nil => cases h : tagContent none r <;> simp [h]
  | cons c a ih =>
    obtain ⟨hclose, hsingle, hdouble⟩ := h c List.mem_cons_self
    rw [List.cons_append, tagContent]
    simp only [hclose, hsingle, hdouble, or_self, if_false]
    rw [ih fun d hd => h d (List.mem_cons_of_mem c hd), Option.map_map]
    rfl

theorem tagContent_quoted {q : Char} {a : List Char} (h : q ∉ a) (r : List Char) :
    tagContent (some q) (a ++ q :: r) = (tagContent none r).map fun (x, y) => (a ++ q :: x, y) := by
  induction a with
  | nil => simp [tagContent]
  | cons c a ih =>
    rw [List.mem_cons, not_or] at h
    rw [List.cons_append, tagContent]
    simp only [Ne.symm h.1, if_false]
    rw [ih h.2, Option.map_map]
    rfl

/-- The declarations that a tag with that namespace makes, inside `current`. -/
def bindings (current ns : Option String) : List Binding :=
  match ns with
  | some n => if current = some n then [] else [⟨"", n⟩]
  | none => []

/-- A namespace that is written as it is: not empty, and without a character that needs escaping. -/
def IsNamespace (n : String) : Prop := n ≠ "" ∧ ∀ c ∈ n.toList, escapeChar c = [c]

instance (n : String) : Decidable (IsNamespace n) :=
  haveI : Decidable (∀ c ∈ n.toList, escapeChar c = [c]) := List.decidableBAll _ _
  inferInstanceAs (Decidable (_ ∧ _))

theorem flatMap_escapeChar {n : List Char} (h : ∀ c ∈ n, escapeChar c = [c]) : n.flatMap escapeChar = n := by
  induction n with
  | nil => rfl
  | cons c r ih =>
    rw [List.flatMap_cons, h c List.mem_cons_self, ih fun d hd => h d (List.mem_cons_of_mem c hd)]
    rfl

theorem escaped_eq_self {s : String} (h : ∀ c ∈ s.toList, escapeChar c = [c]) : escaped s = s.toList :=
  flatMap_escapeChar h

theorem not_quote_of_escapeChar {n : List Char} (h : ∀ c ∈ n, escapeChar c = [c]) : '"' ∉ n := by
  intro hc
  have := h _ hc
  simp [escapeChar] at this

theorem tagContent_declaration {current ns : Option String} (hns : ∀ n ∈ ns, IsNamespace n) (r : List Char) :
    tagContent none (declaration current ns ++ r) =
      (tagContent none r).map fun (x, y) => (declaration current ns ++ x, y) := by
  unfold declaration
  cases ns with
  | none => cases h : tagContent none r <;> simp [h]
  | some n =>
    dsimp only
    split
    · cases h : tagContent none r <;> simp [h]
    · have hn := (hns n rfl).2
      have hmark : Plain " xmlns=".toList := by simp [Plain]
      have hsplit : " xmlns=\"".toList ++ escaped n ++ ['"'] ++ r = " xmlns=".toList ++ '"' :: (n.toList ++ '"' :: r) := by
        rw [escaped_eq_self hn]
        simp
      rw [hsplit, tagContent_plain hmark, tagContent]
      simp only [Char.reduceEq, or_true, if_true, if_false]
      rw [tagContent_quoted (not_quote_of_escapeChar hn), Option.map_map, Option.map_map]
      congr 1
      funext p
      simp [escaped_eq_self hn]

/-! ## Attributes -/

theorem attribute?_eq {cs r r₁ r₂ r₃ : List Char} {c q : Char} (h₀ : cs.dropWhile isBlank = c :: r)
    (h₁ : (r.dropWhile isName).dropWhile isBlank = '=' :: r₁) (h₂ : r₁.dropWhile isBlank = q :: r₂)
    (hq : q = '"' ∨ q = '\'') (h₃ : r₂.dropWhile (· ≠ q) = q :: r₃) :
    (attribute? cs).map (fun (a, rest) => (a, rest.1)) =
      some ((c :: r.takeWhile isName, r₂.takeWhile (· ≠ q)), r₃) := by
  unfold attribute?
  split
  · rename_i h
    rw [h] at h₀
    cases h₀
  · rename_i c' r' h
    rw [h] at h₀
    cases h₀
    split
    · rename_i h'
      rw [h'] at h₁
      cases h₁
      split
      · rename_i h''
        rw [h''] at h₂
        cases h₂
      · rename_i h''
        rw [h''] at h₂
        cases h₂
        rw [if_pos hq]
        split
        · rename_i hclose
          rw [hclose] at h₃
          cases h₃
        · rename_i hclose
          rw [hclose] at h₃
          cases h₃
          rfl
    · rename_i h'
      exact absurd h₁ (h' _)

theorem attributes_nil : attributes [] = [] := by
  rw [attributes]
  rfl

theorem attributes_cons {cs a v r : List Char}
    (h : (attribute? cs).map (fun (a, rest) => (a, rest.1)) = some ((a, v), r)) :
    attributes cs = (a, v) :: attributes r := by
  rw [attributes]
  cases hfirst : attribute? cs with
  | none => simp [hfirst] at h
  | some p =>
    obtain ⟨first, rest, hrest⟩ := p
    simp only [hfirst, Option.map_some, Option.some.injEq, Prod.mk.injEq] at h
    obtain ⟨rfl, rfl⟩ := h
    rfl

theorem attributes_declaration {current ns : Option String} (hns : ∀ n ∈ ns, IsNamespace n) :
    declared (attributes (declaration current ns)) = .ok (bindings current ns) := by
  unfold declaration bindings
  cases ns with
  | none => rw [attributes_nil]; rfl
  | some n =>
    dsimp only
    split
    · rw [attributes_nil]; rfl
    · have hn := (hns n rfl).2
      have hquote : ∀ c ∈ n.toList, (c ≠ '"') := fun c hc e => not_quote_of_escapeChar hn (e ▸ hc)
      have hvalue : (n.toList ++ ['"']).takeWhile (· ≠ '"') = n.toList :=
        Text.takeWhile_append_eq (by simpa using hquote) (by simp)
      have hbehind : (n.toList ++ ['"']).dropWhile (· ≠ '"') = ['"'] :=
        Text.dropWhile_append_eq (by simpa using hquote) (by simp)
      have hfirst : (" xmlns=\"".toList ++ escaped n ++ ['"']).dropWhile isBlank =
          'x' :: (['m', 'l', 'n', 's', '=', '"'] ++ n.toList ++ ['"']) := by
        rw [escaped_eq_self hn]
        simp [isBlank]
      have hequals : ((['m', 'l', 'n', 's', '=', '"'] ++ n.toList ++ ['"']).dropWhile isName).dropWhile isBlank =
          '=' :: '"' :: (n.toList ++ ['"']) := by
        simp [isName, isBlank]
      have hone := attribute?_eq hfirst hequals (by simp [isBlank]) (.inl rfl) hbehind
      rw [attributes_cons hone, attributes_nil, hvalue]
      simp [declared, Binding.ofAttribute, isName, isBlank, bind, Except.bind]

/-! ## Events -/

section
variable {name : String} {current ns : Option String}

theorem IsName.not_mark (h : IsName name) : ∀ c ∈ name.toList, c ∉ marks := fun c hc =>
  Xml.not_mark (List.all_eq_true.1 h.2 c hc)

theorem IsName.exists_head (h : IsName name) : ∃ c, name.toList.head? = some c := by
  obtain ⟨c, hc, -⟩ := (Option.any_eq_true _ _).1 h.1
  exact ⟨c, hc⟩

theorem IsName.plain (h : IsName name) : Plain name.toList := by
  intro c hc
  have := h.not_mark c hc
  simp only [marks, List.mem_cons, not_or] at this
  simp [this]

/-- A name is what stands before the declarations of its tag. -/
theorem span_name (h : IsName name) {r : List Char} (hr : ∀ c ∈ r.head?, isBlank c = true) :
    (name.toList ++ r).takeWhile (fun c => !isBlank c) = name.toList ∧
      (name.toList ++ r).dropWhile (fun c => !isBlank c) = r := by
  have hname : ∀ c ∈ name.toList, (!isBlank c) = true := fun c hc => by
    rw [isBlank_eq_false (h.not_mark c hc)]
    rfl
  have hbehind : ∀ c ∈ r.head?, (!isBlank c) = false := fun c hc => by simp [hr c hc]
  exact ⟨Text.takeWhile_append_eq hname hbehind, Text.dropWhile_append_eq hname hbehind⟩

theorem head_declaration : ∀ c ∈ (declaration current ns).head?, isBlank c = true := by
  unfold declaration
  cases ns with
  | none => simp
  | some n =>
    dsimp only
    split
    · simp
    · simp [isBlank]

theorem startTag_opening (h : IsName name) (hns : ∀ n ∈ ns, IsNamespace n) :
    startTag (name.toList ++ declaration current ns) = .ok (.opening name (bindings current ns)) := by
  have hlast : (name.toList ++ declaration current ns).getLast? ≠ some '/' := by
    rw [List.getLast?_append]
    intro hslash
    unfold declaration at hslash
    split at hslash
    · split at hslash
      · exact h.not_mark _ (List.mem_of_getLast? hslash) (by simp [marks])
      · rw [List.getLast?_concat] at hslash
        simp at hslash
    · exact h.not_mark _ (List.mem_of_getLast? hslash) (by simp [marks])
  unfold startTag
  simp only [hlast, if_false]
  rw [(span_name h head_declaration).1, (span_name h head_declaration).2, attributes_declaration hns]
  simp [bind, Except.bind]

theorem startTag_empty (h : IsName name) (hns : ∀ n ∈ ns, IsNamespace n) :
    startTag (name.toList ++ declaration current ns ++ ['/']) = .ok (.empty name (bindings current ns)) := by
  have hlast : (name.toList ++ declaration current ns ++ ['/']).getLast? = some '/' := by simp
  unfold startTag
  simp only [hlast, if_true, List.dropLast_concat]
  rw [(span_name h head_declaration).1, (span_name h head_declaration).2, attributes_declaration hns]
  simp [bind, Except.bind]

theorem tagContent_tag (h : IsName name) (hns : ∀ n ∈ ns, IsNamespace n) (r : List Char) :
    tagContent none (name.toList ++ declaration current ns ++ r) =
      (tagContent none r).map fun (x, y) => (name.toList ++ declaration current ns ++ x, y) := by
  rw [List.append_assoc, tagContent_plain h.plain, tagContent_declaration hns, Option.map_map]
  congr 1
  funext p
  simp

/-- Markup that begins with a name is a start tag or an empty element. -/
theorem markup_tag (h : IsName name) (opened : List String) {cs content rest : List Char} (hcs : cs.head? = name.toList.head?)
    (hcontent : tagContent none cs = some (content, rest)) :
    markup opened cs = (startTag content).map fun e =>
      match e with
      | .opening n bs => (.opening n bs, n :: opened, rest)
      | e => (e, opened, rest) := by
  obtain ⟨c, hc⟩ := h.exists_head
  have hmark := h.not_mark c (List.mem_of_head? hc)
  cases cs with
  | nil =>
    rw [hc] at hcs
    cases hcs
  | cons d r =>
    rw [hc, List.head?_cons, Option.some.injEq] at hcs
    subst hcs
    simp only [marks, List.mem_cons, not_or] at hmark
    unfold markup
    split
    · rename_i heq
      cases heq
    · rename_i heq
      simp_all
    · rename_i heq
      simp_all
    · rename_i heq
      simp_all
    · simp only [hcontent]
      cases startTag content with
      | error e => rfl
      | ok e => cases e <;> rfl

/-- An opening tag is read as one event, and its name is left open. -/
theorem next_startTag (h : IsName name) (hns : ∀ n ∈ ns, IsNamespace n) (opened : List String) (rest : List Char) :
    next opened (startTagChars current name ns ++ rest) =
      .ok (some (.opening name (bindings current ns), name :: opened, rest)) := by
  have hcontent : tagContent none (name.toList ++ declaration current ns ++ '>' :: rest) =
      some (name.toList ++ declaration current ns, rest) := by
    rw [tagContent_tag h hns, tagContent]
    simp
  have hhead : (name.toList ++ declaration current ns ++ '>' :: rest).head? = name.toList.head? := by
    obtain ⟨c, hc⟩ := h.exists_head
    simp [List.head?_append, hc]
  have htext : startTagChars current name ns ++ rest =
      '<' :: (name.toList ++ declaration current ns ++ '>' :: rest) := by simp [startTagChars]
  rw [htext, next, markup_tag h opened hhead hcontent, startTag_opening h hns]
  rfl

theorem next_emptyTag (h : IsName name) (hns : ∀ n ∈ ns, IsNamespace n) (opened : List String) (rest : List Char) :
    next opened (emptyTagChars current name ns ++ rest) =
      .ok (some (.empty name (bindings current ns), opened, rest)) := by
  have hcontent : tagContent none (name.toList ++ declaration current ns ++ '/' :: '>' :: rest) =
      some (name.toList ++ declaration current ns ++ ['/'], rest) := by
    rw [tagContent_tag h hns]
    simp [tagContent]
  have hhead : (name.toList ++ declaration current ns ++ '/' :: '>' :: rest).head? = name.toList.head? := by
    obtain ⟨c, hc⟩ := h.exists_head
    simp [List.head?_append, hc]
  have htext : emptyTagChars current name ns ++ rest =
      '<' :: (name.toList ++ declaration current ns ++ '/' :: '>' :: rest) := by simp [emptyTagChars]
  rw [htext, next, markup_tag h opened hhead hcontent, startTag_empty h hns]
  rfl

/-- A closing tag closes the name opened last. -/
theorem next_endTag (h : IsName name) (opened : List String) (rest : List Char) :
    next (name :: opened) (endTagChars name ++ rest) = .ok (some (.closing, opened, rest)) := by
  have hcontent : tagContent none (name.toList ++ '>' :: rest) = some (name.toList, rest) := by
    rw [tagContent_plain h.plain, tagContent]
    simp
  have hend : endName name.toList = name.toList := by
    have htrim : name.toList.reverse.dropWhile isBlank = name.toList.reverse := by
      cases hrev : name.toList.reverse with
      | nil => rfl
      | cons c r =>
        have hc : c ∈ name.toList := List.mem_reverse.1 (hrev ▸ List.mem_cons_self)
        simp [isBlank_eq_false (h.not_mark c hc)]
    rw [endName, htrim, List.reverse_reverse]
    simp
  have htext : endTagChars name ++ rest = '<' :: '/' :: (name.toList ++ '>' :: rest) := by simp [endTagChars]
  rw [htext, next, markup, hcontent]
  simp only [hend, String.ofList_toList, if_true]
  rfl

end

/-! ## Text and references -/

theorem next_text {t rest : List Char} (hne : t ≠ []) (ht : ∀ c ∈ t, isText c = true)
    (hrest : ∀ c ∈ rest.head?, isText c = false) (opened : List String) :
    next opened (t ++ rest) = .ok (some (.text (String.ofList t), opened, rest)) := by
  have htake := Text.takeWhile_append_eq ht hrest
  have hdrop := Text.dropWhile_append_eq ht hrest
  cases t with
  | nil => exact absurd rfl hne
  | cons c t =>
    have hc := ht c List.mem_cons_self
    rw [List.cons_append] at htake hdrop ⊢
    unfold next
    split
    · rename_i heq
      cases heq
    · rename_i heq
      cases heq
      cases hc
    · rename_i heq
      cases heq
      cases hc
    · rw [htake, hdrop]

/-- A reference is read up to its semicolon, whatever it names. -/
theorem next_reference {name : List Char} (h : ∀ c ∈ name, c ≠ ';' ∧ c ≠ '&' ∧ c ≠ '<') (opened : List String)
    (rest : List Char) :
    next opened ('&' :: (name ++ ';' :: rest)) = .ok (some (.reference (String.ofList name), opened, rest)) := by
  have hstop : ∀ c ∈ name, (c ≠ ';' && c ≠ '&' && c ≠ '<') = true := by
    intro c hc
    simp [h c hc]
  rw [next, reference]
  simp only
  rw [List.takeWhile_append_of_pos hstop, List.dropWhile_append_of_pos hstop]
  simp [Except.map]

/-- A character is written as it is, or as a reference that stands for it. -/
theorem escapeChar_cases (c : Char) :
    (escapeChar c = [c] ∧ isText c = true) ∨
      ∃ name : List Char, escapeChar c = '&' :: (name ++ [';']) ∧ (∀ d ∈ name, d ≠ ';' ∧ d ≠ '&' ∧ d ≠ '<') ∧
        referenceText (String.ofList name) = String.ofList [c] := by
  by_cases hlt : c = '<'
  · subst hlt
    exact .inr ⟨['l', 't'], rfl, by simp, by decide⟩
  by_cases hgt : c = '>'
  · subst hgt
    exact .inr ⟨['g', 't'], rfl, by simp, by decide⟩
  by_cases hamp : c = '&'
  · subst hamp
    exact .inr ⟨['a', 'm', 'p'], rfl, by simp, by decide⟩
  by_cases hapos : c = '\''
  · subst hapos
    exact .inr ⟨['a', 'p', 'o', 's'], rfl, by simp, by decide⟩
  by_cases hquot : c = '"'
  · subst hquot
    exact .inr ⟨['q', 'u', 'o', 't'], rfl, by simp, by decide⟩
  · left
    simp [escapeChar, isText, hlt, hgt, hamp, hapos, hquot]

end YangSubscriptions.Xml
