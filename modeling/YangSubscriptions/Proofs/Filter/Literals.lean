import YangSubscriptions.Proofs.Filter.Expression

/-!
# Literals

What a literal should be, and what else the reader takes for one. A proper literal is a text in quotes, without its own
quote in it, or a decimal number. The reader only looks for a quote at both ends, and leaves numbers to a reader of
floating point: so it also takes quotes that go together with more of them inside, such as `'x' or c='y'`, and numbers
with exponents, infinities and what is not a number (`Misread`). That is all (`readable_iff`).
-/

namespace YangSubscriptions

namespace Expression

open Text LocationPath

/-! ## Numbers -/

/-- A sign, or none. -/
def Sign (cs : List Char) : Prop := cs = [] ∨ cs = ['+'] ∨ cs = ['-']

def Digits (cs : List Char) : Prop := ∀ c ∈ cs, c.isDigit = true

/-- Digits, perhaps with a point among them or at one end. -/
inductive Unsigned : List Char → Prop where
  | whole (ds : List Char) (h : Digits ds) (hne : ds ≠ []) : Unsigned ds
  | pointed (ds es : List Char) (hd : Digits ds) (he : Digits es) (hne : ds ++ es ≠ []) : Unsigned (ds ++ '.' :: es)

/-- A decimal number, with an optional sign. -/
inductive Decimal : List Char → Prop where
  | mk (sign cs : List Char) (hs : Sign sign) (h : Unsigned cs) : Decimal (sign ++ cs)

/-- An exponent. -/
inductive Exponent : List Char → Prop where
  | mk (e : Char) (he : e = 'e' ∨ e = 'E') (sign ds : List Char) (hs : Sign sign) (hd : Digits ds) (hne : ds ≠ []) :
    Exponent (e :: (sign ++ ds))

/-- The names of infinity and of what is not a number, in letters of either case. -/
def Special (cs : List Char) : Prop := cs.map Char.toLower ∈ ["inf".toList, "infinity".toList, "nan".toList]

/-- A text in quotes without its own quote in it, or a decimal number, which stands for itself. -/
inductive Proper : Reads where
  | quoted (q : Char) (hq : q = '\'' ∨ q = '"') (text : List Char) (h : q ∉ text) : Proper (q :: (text ++ [q])) text
  | number (cs : List Char) (h : Decimal cs) : Proper cs cs

/-- What else is taken for a literal: quotes that run on, with their own quote inside, and what is a number in floating
point only. -/
inductive Misread : Reads where
  | runOn (q : Char) (hq : q = '\'' ∨ q = '"') (text : List Char) (h : q ∈ text)
    (hclosed : scan none (q :: (text ++ [q])) = some none) : Misread (q :: (text ++ [q])) text
  | scientific (cs x : List Char) (h : Decimal cs) (hx : Exponent x) : Misread (cs ++ x) (cs ++ x)
  | special (sign cs : List Char) (hs : Sign sign) (h : Special cs) : Misread (sign ++ cs) (sign ++ cs)

theorem skipSign_append {sign cs : List Char} (hs : Sign sign) (h : ∀ c ∈ cs.head?, c ≠ '+' ∧ c ≠ '-') :
    skipSign (sign ++ cs) = cs := by
  rcases hs with rfl | rfl | rfl
  · rw [List.nil_append, skipSign.eq_def]
    split
    · exact absurd rfl (h '+' rfl).1
    · exact absurd rfl (h '-' rfl).2
    · rfl
  · rfl
  · rfl

theorem exists_skipSign (cs : List Char) : ∃ sign, Sign sign ∧ cs = sign ++ skipSign cs := by
  rw [skipSign.eq_def]
  split
  · exact ⟨['+'], .inr (.inl rfl), rfl⟩
  · exact ⟨['-'], .inr (.inr rfl), rfl⟩
  · exact ⟨[], .inl rfl, rfl⟩

theorem Digits.takeWhile {ds r : List Char} (h : Digits ds) (hr : ∀ c ∈ r.head?, c.isDigit = false) :
    (ds ++ r).takeWhile Char.isDigit = ds ∧ (ds ++ r).dropWhile Char.isDigit = r := by
  rw [List.takeWhile_append_of_pos h, List.dropWhile_append_of_pos h]
  cases r with
  | nil => exact ⟨List.append_nil ds, rfl⟩
  | cons c r =>
    have hc : ¬c.isDigit = true := by
      rw [hr c rfl]
      exact Bool.false_ne_true
    rw [List.takeWhile_cons_of_neg hc, List.dropWhile_cons_of_neg hc]
    exact ⟨List.append_nil ds, rfl⟩

/-- Digits, and what does not go on with a digit. -/
theorem exists_digits (cs : List Char) : ∃ ds r, cs = ds ++ r ∧ Digits ds ∧ ∀ c ∈ r.head?, c.isDigit = false := by
  refine ⟨cs.takeWhile Char.isDigit, cs.dropWhile Char.isDigit, List.takeWhile_append_dropWhile.symm,
    fun _ hc => List.mem_takeWhile_imp hc, fun c hc => ?_⟩
  have hstop := List.head?_dropWhile_not Char.isDigit cs
  rw [Option.mem_def.1 hc] at hstop
  simpa using hstop

/-- The end of a number: nothing, or an exponent. -/
def isExponent : List Char → Bool
  | [] => true
  | c :: r => (c = 'e' || c = 'E') && !(skipSign r).isEmpty && (skipSign r).all Char.isDigit

theorem Digits.head {ds : List Char} (h : Digits ds) : ∀ c ∈ ds.head?, c.isDigit = true := fun c hc =>
  h c (List.mem_of_mem_head? hc)

theorem isExponent_iff {cs : List Char} : isExponent cs = true ↔ cs = [] ∨ Exponent cs := by
  cases cs with
  | nil => exact ⟨fun _ => .inl rfl, fun _ => rfl⟩
  | cons c r =>
    simp only [isExponent, Bool.and_eq_true, Bool.or_eq_true, decide_eq_true_eq, Bool.not_eq_true', List.all_eq_true]
    constructor
    · rintro ⟨⟨hc, hne⟩, hdigits⟩
      obtain ⟨sign, hs, hr⟩ := exists_skipSign r
      rw [hr]
      refine .inr (.mk c hc sign _ hs hdigits fun hnil => ?_)
      rw [hnil] at hne
      cases hne
    · rintro (h | h)
      · cases h
      · cases h with
        | mk _ he sign ds hs hd hne =>
          have hhead : ∀ c ∈ ds.head?, c ≠ '+' ∧ c ≠ '-' := by
            intro c hc
            have hdigit := hd.head c hc
            constructor <;>
            · rintro rfl
              cases hdigit
          rw [skipSign_append hs hhead]
          exact ⟨⟨he, List.isEmpty_eq_false_iff.2 hne⟩, hd⟩

theorem isDecimal_whole {ds r : List Char} (h : Digits ds) (hr : ∀ c ∈ r.head?, c.isDigit = false ∧ c ≠ '.') :
    isDecimal (ds ++ r) = (!ds.isEmpty && isExponent r) := by
  obtain ⟨htake, hdrop⟩ := h.takeWhile fun c hc => (hr c hc).1
  simp only [isDecimal, htake, hdrop]
  cases r with
  | nil => simp [isExponent]
  | cons c r =>
    have hpoint : c ≠ '.' := (hr c rfl).2
    split
    · rename_i heq
      exact absurd (List.cons.inj heq).1 hpoint
    · simp [isExponent]

theorem isDecimal_pointed {ds es r : List Char} (hd : Digits ds) (he : Digits es)
    (hr : ∀ c ∈ r.head?, c.isDigit = false) :
    isDecimal (ds ++ '.' :: (es ++ r)) = (!(ds.isEmpty && es.isEmpty) && isExponent r) := by
  have hpoint : ∀ c ∈ ('.' :: (es ++ r)).head?, c.isDigit = false := fun c hc => Option.some.inj hc ▸ rfl
  obtain ⟨htake, hdrop⟩ := hd.takeWhile hpoint
  obtain ⟨htake', hdrop'⟩ := he.takeWhile hr
  simp only [isDecimal, htake, hdrop, htake', hdrop']
  cases r <;> rfl

theorem Exponent.head {cs : List Char} (h : cs = [] ∨ Exponent cs) : ∀ c ∈ cs.head?, c.isDigit = false ∧ c ≠ '.' := by
  intro c hc
  rcases h with rfl | h
  · cases hc
  · cases h with
    | mk e he sign ds _ _ _ =>
      obtain rfl := Option.some.inj hc
      rcases he with rfl | rfl <;> exact ⟨rfl, by decide⟩

/-- A decimal has digits, with a point or without, and perhaps an exponent. -/
theorem isDecimal_iff {cs : List Char} :
    isDecimal cs = true ↔ ∃ m x, cs = m ++ x ∧ Unsigned m ∧ (x = [] ∨ Exponent x) := by
  constructor
  · intro h
    obtain ⟨ds, r, rfl, hd, hr⟩ := exists_digits cs
    by_cases hpoint : r.head? = some '.'
    · obtain ⟨rest, rfl⟩ := List.head?_eq_some_iff.1 hpoint
      obtain ⟨es, x, rfl, he, hx⟩ := exists_digits rest
      rw [isDecimal_pointed hd he hx, Bool.and_eq_true, Bool.not_eq_true', Bool.and_eq_false_iff,
        List.isEmpty_eq_false_iff, List.isEmpty_eq_false_iff] at h
      refine ⟨ds ++ '.' :: es, x, by simp, .pointed ds es hd he fun hnil => ?_, isExponent_iff.1 h.2⟩
      obtain ⟨hds, hes⟩ := List.append_eq_nil_iff.1 hnil
      exact h.1.elim (· hds) (· hes)
    · have hr' : ∀ c ∈ r.head?, c.isDigit = false ∧ c ≠ '.' := fun c hc =>
        ⟨hr c hc, fun heq => hpoint (heq ▸ hc)⟩
      rw [isDecimal_whole hd hr', Bool.and_eq_true, Bool.not_eq_true', List.isEmpty_eq_false_iff] at h
      exact ⟨ds, r, rfl, .whole ds hd h.1, isExponent_iff.1 h.2⟩
  · rintro ⟨m, x, rfl, hm, hx⟩
    have hexponent := isExponent_iff.2 hx
    cases hm with
    | whole _ hd hne => rw [isDecimal_whole hd (Exponent.head hx), hexponent, List.isEmpty_eq_false_iff.2 hne]; rfl
    | pointed ds es hd he hne =>
      rw [List.append_assoc, List.cons_append, isDecimal_pointed hd he fun c hc => (Exponent.head hx c hc).1, hexponent]
      rw [Ne, List.append_eq_nil_iff, not_and_or] at hne
      simpa [List.isEmpty_iff] using hne

theorem Unsigned.head {m : List Char} (h : Unsigned m) (x : List Char) :
    ∀ c ∈ (m ++ x).head?, c.isDigit = true ∨ c = '.' := by
  have hcons : ∀ {ds y : List Char}, Digits ds → ds ≠ [] → ∀ c ∈ (ds ++ y).head?, c.isDigit = true ∨ c = '.' := by
    intro ds y hd hne c hc
    rw [List.head?_append, List.head?_eq_some_head hne, Option.some_or] at hc
    exact .inl (hd c (Option.some.inj hc ▸ List.head_mem hne))
  cases h with
  | whole _ hd hne => exact hcons hd hne
  | pointed ds es hd _ _ =>
    rw [List.append_assoc]
    cases ds with
    | nil =>
      intro c hc
      exact .inr (Option.some.inj hc).symm
    | cons d ds => exact hcons hd (List.cons_ne_nil d ds)

theorem not_sign_of_head {cs : List Char} {p : Char → Prop} (h : ∀ c ∈ cs.head?, p c) (hplus : ¬p '+')
    (hminus : ¬p '-') : ∀ c ∈ cs.head?, c ≠ '+' ∧ c ≠ '-' := by
  intro c hc
  constructor
  · rintro rfl
    exact hplus (h _ hc)
  · rintro rfl
    exact hminus (h _ hc)

theorem isAlpha_of_special {cs : List Char} (h : Special cs) {c : Char} (hc : c ∈ cs) : c.isAlpha = true := by
  have hletters : (["inf".toList, "infinity".toList, "nan".toList].all fun word => word.all (·.isAlpha)) = true := by
    decide
  have hlower : c.toLower.isAlpha = true :=
    List.all_eq_true.1 (List.all_eq_true.1 hletters _ h) _ (List.mem_map_of_mem hc)
  cases halpha : c.isAlpha with
  | true => rfl
  | false =>
    have hsame : c.toLower = c := by
      have hupper : c.isUpper = false := (Bool.or_eq_false_iff.1 halpha).1
      exact dif_neg (of_decide_eq_false hupper)
    rw [← halpha, ← hlower, hsame]

/-- The numbers of the reader: decimal numbers, with an exponent or without, and special names. -/
theorem isNumber_iff {cs : List Char} :
    isNumber cs = true ↔ Decimal cs ∨ (∃ m x, cs = m ++ x ∧ Decimal m ∧ Exponent x) ∨
      ∃ sign word, cs = sign ++ word ∧ Sign sign ∧ Special word := by
  have hsplit : isNumber cs = true ↔ isDecimal (skipSign cs) = true ∨ Special (skipSign cs) := by
    simp only [isNumber, Special, Bool.or_eq_true, decide_eq_true_eq, List.mem_cons, List.not_mem_nil, or_false,
      or_assoc]
  rw [hsplit]
  constructor
  · obtain ⟨sign, hs, hcs⟩ := exists_skipSign cs
    rintro (h | h)
    · obtain ⟨m, x, hmx, hm, rfl | hx⟩ := isDecimal_iff.1 h
      · rw [List.append_nil] at hmx
        rw [hcs, hmx]
        exact .inl (.mk sign m hs hm)
      · refine .inr (.inl ⟨sign ++ m, x, ?_, .mk sign m hs hm, hx⟩)
        rw [List.append_assoc, ← hmx, ← hcs]
    · exact .inr (.inr ⟨sign, _, hcs, hs, h⟩)
  · have hdecimal : ∀ {m x}, Decimal m → (x = [] ∨ Exponent x) → isDecimal (skipSign (m ++ x)) = true := by
      intro m x hm hx
      obtain ⟨sign, m, hs, hm⟩ := hm
      rw [List.append_assoc, skipSign_append hs (not_sign_of_head (hm.head x) (by decide) (by decide))]
      exact isDecimal_iff.2 ⟨m, x, rfl, hm, hx⟩
    rintro (h | ⟨m, x, rfl, hm, hx⟩ | ⟨sign, word, rfl, hs, h⟩)
    · exact .inl (List.append_nil cs ▸ hdecimal h (.inl rfl))
    · exact .inl (hdecimal hm (.inr hx))
    · have halpha : ∀ c ∈ word.head?, c.isAlpha = true := fun c hc =>
        isAlpha_of_special h (List.mem_of_mem_head? hc)
      rw [skipSign_append hs (not_sign_of_head halpha (by decide) (by decide))]
      exact .inr h

/-! ## What the reader takes -/

/-- The characters of numbers. -/
def isNumeral (c : Char) : Bool := isIdentifierPart c || c = '+'

theorem isNumeral_of_isNumber {cs : List Char} (h : isNumber cs = true) {c : Char} (hc : c ∈ cs) :
    isNumeral c = true := by
  have hdigits : ∀ {ds}, Digits ds → c ∈ ds → isNumeral c = true := by
    intro ds hd hmem
    simp [isNumeral, isIdentifierPart, Char.isAlphanum, hd c hmem]
  have hsign : ∀ {sign}, Sign sign → c ∈ sign → isNumeral c = true := by
    rintro sign (rfl | rfl | rfl) hmem
    · cases hmem
    · exact List.mem_singleton.1 hmem ▸ rfl
    · exact List.mem_singleton.1 hmem ▸ rfl
  have hdecimal : ∀ {m}, Decimal m → c ∈ m → isNumeral c = true := by
    rintro _ ⟨sign, m, hs, hm⟩ hmem
    rcases List.mem_append.1 hmem with hmem | hmem
    · exact hsign hs hmem
    cases hm with
    | whole _ hd _ => exact hdigits hd hmem
    | pointed ds es hd he _ =>
      rcases List.mem_append.1 hmem with hmem | hmem
      · exact hdigits hd hmem
      · rcases List.mem_cons.1 hmem with rfl | hmem
        · rfl
        · exact hdigits he hmem
  rcases isNumber_iff.1 h with h | ⟨m, x, rfl, hm, hx⟩ | ⟨sign, word, rfl, hs, hword⟩
  · exact hdecimal h hc
  · rcases List.mem_append.1 hc with hc | hc
    · exact hdecimal hm hc
    · obtain ⟨e, he, sign, ds, hs, hd, -⟩ := hx
      rcases List.mem_cons.1 hc with rfl | hc
      · rcases he with rfl | rfl <;> rfl
      · exact (List.mem_append.1 hc).elim (hsign hs) (hdigits hd)
  · rcases List.mem_append.1 hc with hc | hc
    · exact hsign hs hc
    · simp [isNumeral, isIdentifierPart, Char.isAlphanum, isAlpha_of_special hword hc]

theorem quoted?_eq_some {q : Char} {cs text : List Char} : quoted? q cs = some text ↔ cs = q :: (text ++ [q]) := by
  cases cs with
  | nil => exact ⟨nofun, nofun⟩
  | cons c r =>
    rw [quoted?]
    constructor
    · intro h
      split at h
      · rename_i hq
        obtain ⟨rfl, hlast⟩ := hq
        obtain ⟨init, rfl⟩ := List.getLast?_eq_some_iff.1 hlast
        rw [List.dropLast_concat] at h
        rw [Option.some.inj h]
      · cases h
    · intro h
      obtain ⟨rfl, rfl⟩ := List.cons.inj h
      rw [if_pos ⟨rfl, List.getLast?_concat ..⟩, List.dropLast_concat]

/-- A literal is quoted text or a number as it stands. -/
theorem literal?_eq_some {cs v : List Char} :
    literal? cs = some v ↔ (∃ q, (q = '\'' ∨ q = '"') ∧ cs = q :: (v ++ [q])) ∨ (isNumber cs = true ∧ v = cs) := by
  have hnumber : ∀ q, isNumeral q = false → isNumber cs = true → quoted? q cs = none := by
    intro q hq h
    cases hquoted : quoted? q cs with
    | none => rfl
    | some text =>
      rw [isNumeral_of_isNumber h (quoted?_eq_some.1 hquoted ▸ List.mem_cons_self)] at hq
      cases hq
  rw [literal?]
  constructor
  · intro h
    rcases Option.or_eq_some_iff.1 h with h | ⟨-, h⟩
    · rcases Option.or_eq_some_iff.1 h with h | ⟨-, h⟩
      · exact .inl ⟨_, .inl rfl, quoted?_eq_some.1 h⟩
      · exact .inl ⟨_, .inr rfl, quoted?_eq_some.1 h⟩
    · split at h
      · rename_i hn
        exact .inr ⟨hn, (Option.some.inj h).symm⟩
      · cases h
  · rintro (⟨q, rfl | rfl, hcs⟩ | ⟨hn, rfl⟩)
    · rw [quoted?_eq_some.2 hcs]
      rfl
    · have hother : quoted? '\'' cs = none := by
        cases hquoted : quoted? '\'' cs with
        | none => rfl
        | some text =>
          have hhead := hcs.symm.trans (quoted?_eq_some.1 hquoted)
          cases (List.cons.inj hhead).1
      rw [hother, quoted?_eq_some.2 hcs]
      rfl
    · rw [hnumber _ rfl hn, hnumber _ rfl hn, if_pos hn]
      rfl

theorem readable_of_isNumber {cs : List Char} (h : isNumber cs = true) : Readable cs cs := by
  have hblank : ∀ c ∈ cs, isBlank c = false := fun c hc =>
    isBlank_eq_false (p := isNumeral) (by decide) (isNumeral_of_isNumber h hc)
  have hplain : Plain cs := by
    intro c hc
    have hyes := isNumeral_of_isNumber h hc
    refine ⟨?_, ?_, ?_, ?_⟩ <;>
    · rintro rfl
      exact absurd hyes (by decide)
  exact ⟨literal?_eq_some.2 (.inr ⟨h, rfl⟩), hplain.scan, fun c hc => hblank c (List.mem_of_mem_head? hc),
    fun c hc => hblank c (List.mem_of_mem_getLast? hc)⟩

theorem readable_of_quoted {q : Char} (hq : q = '\'' ∨ q = '"') {text : List Char}
    (hclosed : scan none (q :: (text ++ [q])) = some none) : Readable (q :: (text ++ [q])) text := by
  have hblank : isBlank q = false := by rcases hq with rfl | rfl <;> decide
  refine ⟨literal?_eq_some.2 (.inl ⟨q, hq, rfl⟩), hclosed, fun c hc => Option.some.inj hc ▸ hblank, fun c hc => ?_⟩
  rw [← List.cons_append, Option.mem_def, List.getLast?_concat] at hc
  exact Option.some.inj hc ▸ hblank

theorem Proper.readable {l v : List Char} (h : Proper l v) : Readable l v := by
  cases h with
  | quoted q hq text htext =>
    refine readable_of_quoted hq ?_
    have hopen : scan none (q :: (v ++ [q])) = scan (some q) (v ++ [q]) := by rcases hq with rfl | rfl <;> rfl
    rw [hopen, scan_append, scan_of_not_mem htext, Option.bind_some, scan, if_pos rfl]
    rfl
  | number _ h => exact readable_of_isNumber (isNumber_iff.2 (.inl h))

/-- Misread literals are read, though they should not be. -/
theorem Misread.readable {l v : List Char} (h : Misread l v) : Readable l v := by
  cases h with
  | runOn q hq _ _ hclosed => exact readable_of_quoted hq hclosed
  | scientific cs x h hx => exact readable_of_isNumber (isNumber_iff.2 (.inr (.inl ⟨cs, x, rfl, h, hx⟩)))
  | special sign cs hs h => exact readable_of_isNumber (isNumber_iff.2 (.inr (.inr ⟨sign, cs, rfl, hs, h⟩)))

/-- Proper literals are read as they should be; what else is read is a misreading. -/
theorem readable_iff {l v : List Char} : Readable l v ↔ Proper l v ∨ Misread l v := by
  constructor
  · intro h
    rcases literal?_eq_some.1 h.value with ⟨q, hq, rfl⟩ | ⟨hn, rfl⟩
    · by_cases hmem : q ∈ v
      · exact .inr (.runOn q hq v hmem h.closed)
      · exact .inl (.quoted q hq v hmem)
    · rcases isNumber_iff.1 hn with hd | ⟨m, x, rfl, hm, hx⟩ | ⟨sign, word, rfl, hs, hword⟩
      · exact .inl (.number _ hd)
      · exact .inr (.scientific m x hm hx)
      · exact .inr (.special sign word hs hword)
  · exact fun h => h.elim Proper.readable Misread.readable

end Expression

end YangSubscriptions
