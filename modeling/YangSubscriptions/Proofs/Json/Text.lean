import YangSubscriptions.Json.Reader
import YangSubscriptions.Json.Writer
import YangSubscriptions.Proofs.Data.Json
import YangSubscriptions.Proofs.Except
import YangSubscriptions.Proofs.Text.Digits

/-!
# Compact text is read back

The compact text of a value is read as that value (`parse_render`), as long as its numbers are integers of 64 bits, no
object has two members of a name and it is not nested too deep. The induction is on the value, with whatever follows
its text; only a number must end where it does. In turn, what is read from any text is not nested too deep and its
integers have 64 bits (`within_parse`), which is shown along the recursion of the reader.
-/

namespace YangSubscriptions.Json

/-- The step gives that value and leaves that text. -/
def Gives {α : Type} {p : List Char → Prop} (s : Except Failure (α × Subtype p)) (a : α) (rest : List Char) : Prop :=
  s.map (fun x => (x.1, x.2.1)) = .ok (a, rest)

theorem Gives.exists_eq {α : Type} {p : List Char → Prop} {s : Except Failure (α × Subtype p)} {a : α}
    {rest : List Char} (h : Gives s a rest) : ∃ hrest, s = .ok (a, ⟨rest, hrest⟩) := by
  obtain ⟨⟨b, rest', hrest⟩, rfl, heq⟩ := exists_ok_of_map h
  cases heq
  exact ⟨hrest, rfl⟩

/-! ## Strings -/

theorem hexValue?_hexDigit : ∀ n < 32, hexValue? (hexDigit (n / 16)) = some (n / 16) ∧
    hexValue? (hexDigit n) = some (n % 16) := by
  decide

theorem hexCode_control {n : Nat} (h : n < 32) (rest : List Char) :
    Gives (hexCode ('0' :: '0' :: hexDigit (n / 16) :: hexDigit n :: rest)) n rest := by
  obtain ⟨hhigh, hlow⟩ := hexValue?_hexDigit n h
  have hzero : hexValue? '0' = some 0 := by decide
  have hsum : 0 * 4096 + 0 * 256 + n / 16 * 16 + n % 16 = n := by omega
  rw [Gives, hexCode]
  simp only [hzero, hhigh, hlow, hsum]
  rfl

/-- A backslash and what follows it are one character. -/
theorem stringBody_escape {c : Char} {e cs s r : List Char} (h : Gives (escape (e ++ cs)) c cs)
    (hcs : Gives (stringBody cs) s r) : Gives (stringBody ('\\' :: (e ++ cs))) (c :: s) r := by
  obtain ⟨hlength, h⟩ := h.exists_eq
  obtain ⟨hlength', hcs⟩ := hcs.exists_eq
  rw [Gives, stringBody, h]
  simp only [bind, Except.bind, hcs]
  rfl

theorem stringBody_plain {c : Char} {cs s r : List Char} (hquote : c ≠ '"') (hback : c ≠ '\\') (hcontrol : ¬ c.toNat < 32)
    (hcs : Gives (stringBody cs) s r) : Gives (stringBody (c :: cs)) (c :: s) r := by
  obtain ⟨hlength, hcs⟩ := hcs.exists_eq
  rw [Gives, stringBody]
  · simp only [hcontrol, if_false, bind, Except.bind, hcs]
    rfl
  · exact hquote
  · exact hback

theorem escape_control {c : Char} (h : c.toNat < 32) (cs : List Char) :
    Gives (escape (['u', '0', '0', hexDigit (c.toNat / 16), hexDigit c.toNat] ++ cs)) c cs := by
  obtain ⟨hlength, hcode⟩ := (hexCode_control h cs).exists_eq
  have hlow : ¬ (0xDC00 ≤ c.toNat ∧ c.toNat ≤ 0xDFFF) := by omega
  have hfirst : c.toNat < 0xD800 ∨ 0xDBFF < c.toNat := by omega
  rw [Gives]
  simp only [List.cons_append, List.nil_append, escape, hcode, bind, Except.bind, hlow, hfirst, if_false, if_true,
    Char.ofNat_toNat]
  rfl

/-- What a character is written as, in front of what is read already. -/
theorem stringBody_escapeChar (c : Char) {cs s r : List Char} (h : Gives (stringBody cs) s r) :
    Gives (stringBody (escapeChar c ++ cs)) (c :: s) r := by
  have hescape : ∀ e : Char, Gives (escape ([e] ++ cs)) c cs → escapeChar c = ['\\', e] →
      Gives (stringBody (escapeChar c ++ cs)) (c :: s) r := by
    intro e he hc
    rw [hc]
    exact stringBody_escape he h
  by_cases hquote : c = '"'
  · subst hquote
    exact hescape '"' rfl rfl
  by_cases hback : c = '\\'
  · subst hback
    exact hescape '\\' rfl rfl
  by_cases hb : c = '\x08'
  · subst hb
    exact hescape 'b' rfl rfl
  by_cases ht : c = '\t'
  · subst ht
    exact hescape 't' rfl rfl
  by_cases hn : c = '\n'
  · subst hn
    exact hescape 'n' rfl rfl
  by_cases hf : c = '\x0c'
  · subst hf
    exact hescape 'f' rfl rfl
  by_cases hr : c = '\x0d'
  · subst hr
    exact hescape 'r' rfl rfl
  rw [escapeChar, if_neg hquote, if_neg hback, if_neg hb, if_neg ht, if_neg hn, if_neg hf, if_neg hr]
  by_cases hcontrol : c.toNat < 32
  · rw [if_pos hcontrol]
    exact stringBody_escape (escape_control hcontrol cs) h
  · rw [if_neg hcontrol]
    exact stringBody_plain hquote hback hcontrol h

/-- A string is read back from between its quotes. -/
theorem stringBody_escaped : ∀ (s rest : List Char), Gives (stringBody (s.flatMap escapeChar ++ '"' :: rest)) s rest
  | [], rest => by
    rw [List.flatMap_nil, List.nil_append, Gives, stringBody]
    rfl
  | c :: s, rest => by
    rw [List.flatMap_cons, List.append_assoc]
    exact stringBody_escapeChar c (stringBody_escaped s rest)

/-! ## Numbers -/

theorem le_ofDigitChars : ∀ (ds : List Char) (n : Nat), n ≤ Nat.ofDigitChars 10 ds n
  | [], n => by simp
  | d :: ds, n => by
    have hbelow := le_ofDigitChars ds (10 * n + (d.toNat - 48))
    rw [Nat.ofDigitChars_cons]
    exact Nat.le_trans (by omega) hbelow

/-- Digits of a number below `2 ^ 64` are all taken. -/
theorem absorb_eq : ∀ {ds : List Char} {n : Nat}, Nat.ofDigitChars 10 ds n < UInt64.size →
    absorb n ds = (Nat.ofDigitChars 10 ds n, ds.length, [])
  | [], n, _ => by simp [absorb]
  | d :: ds, n, h => by
    rw [Nat.ofDigitChars_cons] at h
    have hfirst : 10 * n + digitValue d < UInt64.size := Nat.lt_of_le_of_lt (le_ofDigitChars ds _) h
    have hbelow := absorb_eq h
    have hdigit : digitValue d = d.toNat - '0'.toNat := rfl
    rw [absorb, if_pos hfirst, hdigit, hbelow, Nat.ofDigitChars_cons]
    rfl

/-- What may stand behind a number. -/
def Ends (rest : List Char) : Prop := ∀ c ∈ rest.head?, c.isDigit = false ∧ c ≠ '.' ∧ c ≠ 'e' ∧ c ≠ 'E'

theorem numberTail_of_ends (positive : Bool) (n : Nat) {rest : List Char} (h : Ends rest) :
    numberTail positive n 0 rest =
      if positive then .ok (.int n, ⟨rest, Nat.le_refl _⟩)
      else if n = 0 ∨ 9223372036854775808 < n then floatOf false n 0 ⟨rest, Nat.le_refl _⟩
      else .ok (.int (-n), ⟨rest, Nat.le_refl _⟩) := by
  unfold numberTail
  split
  · exact absurd rfl (h '.' rfl).2.1
  · exact absurd rfl (h 'e' rfl).2.2.1
  · exact absurd rfl (h 'E' rfl).2.2.2
  · simp

/-- Digits are read as their number, and then what may follow an integer. -/
theorem unsignedNumber_toDigits {positive : Bool} {n : Nat} {rest : List Char} {v : Number} (hn : n < UInt64.size)
    (hrest : Ends rest) (h : Gives (numberTail positive n 0 rest) v rest) :
    Gives (unsignedNumber positive (Nat.toDigits 10 n ++ rest)) v rest := by
  by_cases hzero : n = 0
  · subst hzero
    obtain ⟨hlength, htail⟩ := h.exists_eq
    have hhead : ¬ rest.head?.any Char.isDigit = true := by
      rw [Option.any_eq_true]
      rintro ⟨c, hc, hdigit⟩
      rw [(hrest c hc).1] at hdigit
      cases hdigit
    rw [Nat.toDigits_zero, List.cons_append, List.nil_append, Gives, unsignedNumber, if_neg hhead]
    simp only [htail, bind, Except.bind]
    rfl
  · obtain ⟨c, ds, hds, hc⟩ := Text.exists_toDigits (show 1 < 10 by decide) hzero
    have hdigits : ∀ d ∈ c :: ds, d.isDigit = true := by
      rw [← hds]
      exact fun d hd => Nat.isDigit_of_mem_toDigits (by decide) (by decide) hd
    have hdigit : c.isDigit = true := hdigits c List.mem_cons_self
    have hmore : ∀ d ∈ ds, d.isDigit = true := fun d hd => hdigits d (List.mem_cons_of_mem c hd)
    have hend : ∀ d ∈ rest.head?, d.isDigit = false := fun d hd => (hrest d hd).1
    have htake : (ds ++ rest).takeWhile Char.isDigit = ds := Text.takeWhile_append_eq hmore hend
    have hdrop : (afterDigits (ds ++ rest)).1 = rest := Text.dropWhile_append_eq hmore hend
    rw [← hdrop] at h
    obtain ⟨hlength, htail⟩ := h.exists_eq
    have hvalue : Nat.ofDigitChars 10 (c :: ds) 0 = n := by
      rw [← hds]
      exact Nat.ofDigitChars_toDigits (by decide) (by decide)
    have habsorb := @absorb_eq (c :: ds) 0 (by rwa [hvalue])
    rw [hvalue] at habsorb
    rw [hds, List.cons_append, Gives, unsignedNumber]
    · rw [if_pos hdigit]
      simp only [htake, habsorb, List.length_nil, htail, bind, Except.bind]
      exact congrArg (fun r => Except.ok (v, r)) hdrop
    · exact hc

/-! ## Values -/

theorem next?_cons {c : Char} (h : isSpace c = false) (r : List Char) :
    next? (c :: r) = some (c, ⟨r, Nat.lt_succ_self r.length⟩) := by
  have hskip : skipSpace (c :: r) = c :: r := by
    rw [skipSpace, h]
    rfl
  unfold next?
  split
  · rename_i heq
    rw [hskip] at heq
    cases heq
  · rename_i heq
    rw [hskip] at heq
    cases heq
    rfl

mutual

/-- Is it nested at most that deep, and do its integers have 64 bits? -/
def Within (depth : Nat) : Json → Prop
  | .number (.int n) => -9223372036854775808 ≤ n ∧ n < 18446744073709551616
  | .array items => 1 < depth ∧ ItemsWithin (depth - 1) items
  | .object members => 1 < depth ∧ MembersWithin (depth - 1) members
  | _ => True

def ItemsWithin (depth : Nat) : List Json → Prop
  | [] => True
  | v :: vs => v.Within depth ∧ ItemsWithin depth vs

def MembersWithin (depth : Nat) : List (String × Json) → Prop
  | [] => True
  | (_, v) :: ms => v.Within depth ∧ MembersWithin depth ms

end

mutual

/-- Does the compact text tell the value: no object has two members of a name, and there are no fractions? -/
def Legible : Json → Prop
  | .number (.float _) => False
  | .array items => ItemsLegible items
  | .object members => (members.map (·.1)).Nodup ∧ MembersLegible members
  | _ => True

def ItemsLegible : List Json → Prop
  | [] => True
  | v :: vs => v.Legible ∧ ItemsLegible vs

def MembersLegible : List (String × Json) → Prop
  | [] => True
  | (_, v) :: ms => v.Legible ∧ MembersLegible ms

end

theorem isSpace_of_isDigit {c : Char} (h : c.isDigit = true) : isSpace c = false := by
  simp only [isSpace, Bool.or_eq_false_iff, decide_eq_false_iff_not]
  refine ⟨⟨⟨?_, ?_⟩, ?_⟩, ?_⟩ <;> rintro rfl <;> cases h

/-- A value that begins with a digit is a number. -/
theorem value_digit {depth : Nat} {c : Char} {r rest : List Char} {n : Number} (hc : c.isDigit = true)
    (h : Gives (unsignedNumber true (c :: r)) n rest) : Gives (value depth (c :: r)) (.number n) rest := by
  obtain ⟨hlength, h⟩ := h.exists_eq
  rw [Gives, value, next?_cons (isSpace_of_isDigit hc)]
  simp only
  split <;> try cases hc
  rw [if_pos hc, h]
  rfl

theorem render_ofNat (n : Nat) : (Number.int n).render = Nat.toDigits 10 n := by
  rw [← Nat.toList_repr]
  rfl

theorem render_negSucc (n : Nat) : (Number.int (.negSucc n)).render = '-' :: Nat.toDigits 10 (n + 1) := by
  have hrepr : (Number.int (.negSucc n)).render = ("-" ++ (n + 1).repr).toList := rfl
  rw [hrepr, String.toList_append, Nat.toList_repr]
  rfl

/-- An integer is read from how it is written. -/
theorem value_int {depth : Nat} {n : Int} {rest : List Char}
    (hn : -9223372036854775808 ≤ n ∧ n < 18446744073709551616) (hrest : Ends rest) :
    Gives (value depth ((Number.int n).render ++ rest)) (.number (.int n)) rest := by
  have hsize : UInt64.size = 18446744073709551616 := rfl
  cases n with
  | ofNat n =>
    rw [Int.ofNat_eq_natCast] at hn ⊢
    have htail : Gives (numberTail true n 0 rest) (.int n) rest := by
      rw [Gives, numberTail_of_ends true n hrest]
      rfl
    have hnumber := unsignedNumber_toDigits (by rw [hsize]; omega) hrest htail
    rw [render_ofNat]
    cases hds : Nat.toDigits 10 n with
    | nil => exact absurd hds Nat.toDigits_ne_nil
    | cons c ds =>
      rw [hds] at hnumber
      exact value_digit (Nat.isDigit_of_mem_toDigits (by decide) (by decide) (hds ▸ List.mem_cons_self)) hnumber
  | negSucc n =>
    have htail : Gives (numberTail false (n + 1) 0 rest) (.int (.negSucc n)) rest := by
      have hint : ¬ (n + 1 = 0 ∨ 9223372036854775808 < n + 1) := by omega
      rw [Gives, numberTail_of_ends false (n + 1) hrest, if_neg (by simp), if_neg hint]
      rfl
    obtain ⟨hlength, hnumber⟩ := (unsignedNumber_toDigits (by rw [hsize]; omega) hrest htail).exists_eq
    rw [render_negSucc, List.cons_append, Gives, value]
    simp only [next?_cons (show isSpace '-' = false by decide), hnumber]
    rfl

theorem itemsWithin_iff {depth : Nat} : ∀ {vs : List Json}, ItemsWithin depth vs ↔ ∀ v ∈ vs, v.Within depth
  | [] => by simp [ItemsWithin]
  | v :: vs => by rw [ItemsWithin, List.forall_mem_cons, itemsWithin_iff]

theorem membersWithin_iff {depth : Nat} : ∀ {ms : List (String × Json)},
    MembersWithin depth ms ↔ ∀ m ∈ ms, m.2.Within depth
  | [] => by simp [MembersWithin]
  | (name, v) :: ms => by rw [MembersWithin, List.forall_mem_cons, membersWithin_iff]

theorem itemsLegible_iff : ∀ {vs : List Json}, ItemsLegible vs ↔ ∀ v ∈ vs, v.Legible
  | [] => by simp [ItemsLegible]
  | v :: vs => by rw [ItemsLegible, List.forall_mem_cons, itemsLegible_iff]

theorem membersLegible_iff : ∀ {ms : List (String × Json)}, MembersLegible ms ↔ ∀ m ∈ ms, m.2.Legible
  | [] => by simp [MembersLegible]
  | (name, v) :: ms => by rw [MembersLegible, List.forall_mem_cons, membersLegible_iff]

/-- What a value is written with begins neither with a blank nor with what ends an array. -/
theorem exists_chars {v : Json} (h : v.Legible) : ∃ c r, v.chars = c :: r ∧ isSpace c = false ∧ c ≠ ']' := by
  cases v with
  | null => exact ⟨_, _, rfl, by decide, by decide⟩
  | bool b => cases b <;> exact ⟨_, _, rfl, by decide, by decide⟩
  | string s => exact ⟨_, _, rfl, by decide, by decide⟩
  | array items => exact ⟨_, _, rfl, by decide, by decide⟩
  | object members => exact ⟨_, _, rfl, by decide, by decide⟩
  | number n =>
    cases n with
    | float x => exact h.elim
    | int n =>
      cases n with
      | negSucc n => exact ⟨_, _, render_negSucc n, by decide, by decide⟩
      | ofNat n =>
        have hrender : chars (.number (.int (.ofNat n))) = Nat.toDigits 10 n := render_ofNat n
        cases hds : Nat.toDigits 10 n with
        | nil => exact absurd hds Nat.toDigits_ne_nil
        | cons c ds =>
          have hc : c.isDigit = true :=
            Nat.isDigit_of_mem_toDigits (by decide) (by decide) (hds ▸ List.mem_cons_self)
          refine ⟨c, ds, by rw [hrender, hds], isSpace_of_isDigit hc, ?_⟩
          rintro rfl
          cases hc

theorem ends_cons {c : Char} (h : c = ',' ∨ c = ']' ∨ c = '\x7d') (r : List Char) : Ends (c :: r) := by
  intro d hd
  cases hd
  rcases h with rfl | rfl | rfl <;> decide

/-- A value begins with a character that is no blank and ends no array. -/
theorem next?_chars {v : Json} (h : v.Legible) (rest : List Char) :
    ∃ c r hr, next? (v.chars ++ rest) = some (c, ⟨r, hr⟩) ∧ c ≠ ']' := by
  obtain ⟨c, r, hv, hspace, hc⟩ := exists_chars h
  rw [hv, List.cons_append, next?_cons hspace]
  exact ⟨_, _, _, rfl, hc⟩

theorem itemsChars_append (v w : Json) (vs : List Json) (rest : List Char) :
    itemsChars (v :: w :: vs) ++ rest = v.chars ++ ',' :: (itemsChars (w :: vs) ++ rest) := by
  rw [itemsChars, List.append_assoc, List.cons_append]
  simp

theorem membersChars_append (name : String) (v : Json) (m : String × Json) (ms : List (String × Json))
    (rest : List Char) : membersChars ((name, v) :: m :: ms) ++ rest =
      '"' :: (name.toList.flatMap escapeChar ++ '"' :: ':' :: (v.chars ++ ',' :: (membersChars (m :: ms) ++ rest))) := by
  rw [membersChars, quoted]
  · simp
  · simp

theorem next?_items {v : Json} {vs : List Json} (h : ItemsLegible (v :: vs)) (rest : List Char) :
    ∃ c r hr, next? (itemsChars (v :: vs) ++ rest) = some (c, ⟨r, hr⟩) ∧ c ≠ ']' := by
  cases vs with
  | nil => exact next?_chars h.1 rest
  | cons w vs =>
    rw [itemsChars_append]
    exact next?_chars h.1 _

theorem exists_membersChars (m : String × Json) (ms : List (String × Json)) :
    ∃ body, membersChars (m :: ms) = '"' :: body := by
  cases ms with
  | nil => exact ⟨_, rfl⟩
  | cons m' ms => exact ⟨_, rfl⟩

mutual

/-- A value is read back from its text, if nothing behind it can belong to a number. -/
theorem value_chars : ∀ (v : Json) (depth : Nat) (rest : List Char), v.Within depth → v.Legible → Ends rest →
    Gives (value depth (v.chars ++ rest)) v rest
  | .null, depth, rest, _, _, _ => by
    rw [chars, Gives, value]
    simp only [List.cons_append, List.nil_append, next?_cons (show isSpace 'n' = false by decide)]
    rfl
  | .bool true, depth, rest, _, _, _ => by
    rw [chars, Gives, value]
    simp only [List.cons_append, List.nil_append, next?_cons (show isSpace 't' = false by decide)]
    rfl
  | .bool false, depth, rest, _, _, _ => by
    rw [chars, Gives, value]
    simp only [List.cons_append, List.nil_append, next?_cons (show isSpace 'f' = false by decide)]
    rfl
  | .number (.float _), _, _, _, h, _ => h.elim
  | .number (.int n), depth, rest, hn, _, hrest => value_int hn hrest
  | .string s, depth, rest, _, _, _ => by
    obtain ⟨hlength, hs⟩ := (stringBody_escaped s.toList rest).exists_eq
    rw [chars, quoted, Gives, value]
    simp only [List.cons_append, List.append_assoc, List.nil_append, next?_cons (show isSpace '"' = false by decide), hs,
      bind, Except.bind, String.ofList_toList]
    rfl
  | .array [], depth, rest, hn, _, _ => by
    rw [chars, itemsChars, Gives, value]
    simp only [List.cons_append, List.nil_append, next?_cons (show isSpace '[' = false by decide),
      next?_cons (show isSpace ']' = false by decide), if_neg (Nat.not_le.2 hn.1)]
    rfl
  | .array (v :: vs), depth, rest, hn, h, _ => by
    obtain ⟨hlength, hitems⟩ := (items_chars (v :: vs) (depth - 1) rest (by simp) hn.2 h).exists_eq
    obtain ⟨c, r, hr, hnext, hc⟩ := next?_items h (']' :: rest)
    have hdepth := Nat.not_le.2 hn.1
    rw [chars, Gives, value]
    simp only [List.cons_append, List.append_assoc, List.nil_append, next?_cons (show isSpace '[' = false by decide),
      if_neg hdepth, hnext]
    split
    · rename_i heq
      cases heq
    · rename_i heq
      cases heq
      exact absurd rfl hc
    · simp only [hitems, bind, Except.bind]
      rfl
  | .object [], depth, rest, hn, _, _ => by
    rw [chars, membersChars, Gives, value]
    simp only [List.cons_append, List.nil_append, next?_cons (show isSpace '\x7b' = false by decide),
      next?_cons (show isSpace '\x7d' = false by decide), if_neg (Nat.not_le.2 hn.1)]
    rfl
  | .object (m :: ms), depth, rest, hn, h, _ => by
    obtain ⟨body, hbody⟩ := exists_membersChars m ms
    have hwritten : membersChars (m :: ms) ++ '\x7d' :: rest = '"' :: (body ++ '\x7d' :: rest) := by
      rw [hbody, List.cons_append]
    obtain ⟨hlength, hmembers⟩ := (members_chars (m :: ms) (depth - 1) rest _ hn.2 h.2 hwritten).exists_eq
    have hdepth := Nat.not_le.2 hn.1
    rw [chars, hbody, Gives, value]
    simp only [List.cons_append, List.append_assoc, List.nil_append, next?_cons (show isSpace '\x7b' = false by decide),
      next?_cons (show isSpace '"' = false by decide), if_neg hdepth, hmembers, bind, Except.bind, ofMembers_of_nodup h.1]
    rfl

/-- So are the items of an array. -/
theorem items_chars : ∀ (vs : List Json) (depth : Nat) (rest : List Char), vs ≠ [] → ItemsWithin depth vs →
    ItemsLegible vs → Gives (items depth (itemsChars vs ++ ']' :: rest)) vs rest
  | [], _, _, hne, _, _ => absurd rfl hne
  | [v], depth, rest, _, hn, h => by
    obtain ⟨hlength, hv⟩ := (value_chars v depth (']' :: rest) hn.1 h.1 (ends_cons (by simp) rest)).exists_eq
    rw [itemsChars, Gives, items]
    simp only [hv, bind, Except.bind, next?_cons (show isSpace ']' = false by decide)]
    rfl
  | v :: w :: vs, depth, rest, _, hn, h => by
    have hfirst := value_chars v depth (',' :: (itemsChars (w :: vs) ++ ']' :: rest)) hn.1 h.1
      (ends_cons (by simp) _)
    obtain ⟨hlength, hv⟩ := hfirst.exists_eq
    obtain ⟨hlength', hvs⟩ := (items_chars (w :: vs) depth rest (by simp) hn.2 h.2).exists_eq
    obtain ⟨c, r, hr, hnext, hc⟩ := next?_items h.2 (']' :: rest)
    rw [itemsChars_append, Gives, items]
    simp only [hv, bind, Except.bind, next?_cons (show isSpace ',' = false by decide), hnext]
    split
    · rename_i heq
      cases heq
    · rename_i heq
      cases heq
      exact absurd rfl hc
    · simp only [hvs]
      rfl

/-- So are the members of an object. -/
theorem members_chars : ∀ (ms : List (String × Json)) (depth : Nat) (rest body : List Char), MembersWithin depth ms →
    MembersLegible ms → membersChars ms ++ '\x7d' :: rest = '"' :: body → Gives (members depth body) ms rest
  | [], _, _, _, _, _, hbody => by cases hbody
  | [(name, v)], depth, rest, body, hn, h, hbody => by
    obtain ⟨hlength, hv⟩ := (value_chars v depth ('\x7d' :: rest) hn.1 h.1 (ends_cons (by simp) rest)).exists_eq
    obtain ⟨hlength', hname⟩ := (stringBody_escaped name.toList (':' :: (v.chars ++ '\x7d' :: rest))).exists_eq
    have hbody' : body = name.toList.flatMap escapeChar ++ '"' :: ':' :: (v.chars ++ '\x7d' :: rest) := by
      simpa [membersChars, quoted] using hbody.symm
    rw [hbody', Gives, members]
    simp only [hname, bind, Except.bind, next?_cons (show isSpace ':' = false by decide), hv,
      next?_cons (show isSpace '\x7d' = false by decide), String.ofList_toList]
    rfl
  | (name, v) :: m :: ms, depth, rest, body, hn, h, hbody => by
    obtain ⟨body', hmore⟩ := exists_membersChars m ms
    have hwritten : membersChars (m :: ms) ++ '\x7d' :: rest = '"' :: (body' ++ '\x7d' :: rest) := by
      rw [hmore, List.cons_append]
    obtain ⟨hlength, hms⟩ := (members_chars (m :: ms) depth rest _ hn.2 h.2 hwritten).exists_eq
    have hvalue := value_chars v depth (',' :: (membersChars (m :: ms) ++ '\x7d' :: rest)) hn.1 h.1
      (ends_cons (by simp) _)
    rw [membersChars_append, List.cons.injEq] at hbody
    rw [hwritten] at hvalue hbody
    obtain ⟨hlength', hv⟩ := hvalue.exists_eq
    obtain ⟨hlength'', hname⟩ := (stringBody_escaped name.toList
      (':' :: (v.chars ++ ',' :: '"' :: (body' ++ '\x7d' :: rest)))).exists_eq
    rw [← hbody.2, Gives, members]
    simp only [hname, bind, Except.bind, next?_cons (show isSpace ':' = false by decide), hv,
      next?_cons (show isSpace ',' = false by decide), next?_cons (show isSpace '"' = false by decide), hms,
      String.ofList_toList]
    rfl

end

/-- A value that is not nested too deep is read back from its compact text. -/
theorem parse_render {v : Json} (hn : v.Within maxDepth) (h : v.Legible) : parse v.render = .ok v := by
  have hv := value_chars v maxDepth [] hn h (by simp [Ends])
  rw [List.append_nil] at hv
  obtain ⟨hlength, hv⟩ := hv.exists_eq
  have hend : next? [] = none := rfl
  have hdocument : document v.chars = .ok v := by
    rw [document, hv]
    simp only [bind, Except.bind, hend]
  rw [parse, render, String.toList_ofList, hdocument]
  rfl

/-! ## What is read is not nested too deep -/

theorem absorb_lt {n : Nat} (h : n < UInt64.size) : ∀ ds, (absorb n ds).1 < UInt64.size
  | [] => h
  | d :: ds => by
    rw [absorb]
    split
    · rename_i hfirst
      exact absorb_lt hfirst ds
    · exact h

section
variable {cs : List Char} {positive : Bool} {n : Nat} {e : Int} {v : Number} {r : Left cs}

theorem exists_float_of_floatOf {rest : Left cs} (h : floatOf positive n e rest = .ok (v, r)) : ∃ x, v = .float x := by
  unfold floatOf at h
  split at h
  · cases h
    exact ⟨_, rfl⟩
  · cases h

theorem exists_float_of_exponentPart (h : exponentPart positive n e cs = .ok (v, r)) : ∃ x, v = .float x := by
  unfold exponentPart at h
  simp only at h
  split at h
  · cases h
  · split at h
    · exact exists_float_of_floatOf h
    · split at h
      · cases h
      · cases h
        exact ⟨_, rfl⟩

theorem exists_widen {ds : List Char} {hlength : ds.length ≤ cs.length} {s : Except Failure (Number × Left ds)}
    (h : Left.widen hlength s = .ok (v, r)) : ∃ r', s = .ok (v, r') := by
  obtain ⟨⟨w, r'⟩, rfl, heq⟩ := exists_ok_of_map h
  cases heq
  exact ⟨r', rfl⟩

theorem exists_float_of_exponentOrEnd (h : exponentOrEnd positive n e cs = .ok (v, r)) : ∃ x, v = .float x := by
  unfold exponentOrEnd at h
  split at h
  · obtain ⟨r', h⟩ := exists_widen h
    exact exists_float_of_exponentPart h
  · obtain ⟨r', h⟩ := exists_widen h
    exact exists_float_of_exponentPart h
  · exact exists_float_of_floatOf h

/-- An integer that is read has 64 bits. -/
theorem within_numberTail {depth skipped : Nat} (hn : n < UInt64.size)
    (h : numberTail positive n skipped cs = .ok (v, r)) : (number v).Within depth := by
  have hsize : UInt64.size = 18446744073709551616 := rfl
  have hfloat : (∃ x, v = .float x) → (number v).Within depth := by
    rintro ⟨x, rfl⟩
    trivial
  unfold numberTail at h
  split at h
  · simp only at h
    split at h
    · cases h
    · obtain ⟨r', h⟩ := exists_widen h
      exact hfloat (exists_float_of_exponentOrEnd h)
  · obtain ⟨r', h⟩ := exists_widen h
    exact hfloat (exists_float_of_exponentPart h)
  · obtain ⟨r', h⟩ := exists_widen h
    exact hfloat (exists_float_of_exponentPart h)
  · split at h
    · exact hfloat (exists_float_of_floatOf h)
    · split at h
      · cases h
        rw [Within]
        omega
      · split at h
        · exact hfloat (exists_float_of_floatOf h)
        · cases h
          rw [Within]
          omega

end

theorem within_unsignedNumber {depth : Nat} {positive : Bool} {cs : List Char} {v : Number} {r : Rest cs}
    (h : unsignedNumber positive cs = .ok (v, r)) : (number v).Within depth := by
  unfold unsignedNumber at h
  split at h
  · cases h
  · split at h
    · cases h
    · obtain ⟨⟨w, r'⟩, htail, heq⟩ := exists_ok_of_bind h
      cases heq
      exact within_numberTail (by decide) htail
  · split at h
    · simp only at h
      obtain ⟨⟨w, r'⟩, htail, heq⟩ := exists_ok_of_bind h
      cases heq
      exact within_numberTail (absorb_lt (by decide) _) htail
    · cases h

theorem within_keyword {depth : Nat} {v w : Json} (hv : v.Within depth) : ∀ {ks cs : List Char} {r : Left cs},
    keyword v ks cs = .ok (w, r) → w.Within depth
  | [], _, _, h => by
    cases h
    exact hv
  | _ :: _, [], _, h => by cases h
  | k :: ks, c :: cs, r, h => by
    rw [keyword] at h
    split at h
    · obtain ⟨⟨w', r'⟩, hmore, heq⟩ := exists_ok_of_bind h
      cases heq
      exact within_keyword hv hmore
    · cases h

theorem membersWithin_insert {depth : Nat} {name : String} {v : Json} (hv : v.Within depth) :
    ∀ {ms : List (String × Json)}, MembersWithin depth ms → MembersWithin depth (insertMember name v ms)
  | [], _ => ⟨hv, trivial⟩
  | (n, w) :: ms, h => by
    rw [insertMember]
    split
    · exact ⟨hv, h.2⟩
    · exact ⟨h.1, membersWithin_insert hv h.2⟩

theorem within_ofMembers {depth : Nat} (hdepth : 1 < depth) {ms : List (String × Json)}
    (h : MembersWithin (depth - 1) ms) : (ofMembers ms).Within depth := by
  have hfold : ∀ (ms acc : List (String × Json)), MembersWithin (depth - 1) ms → MembersWithin (depth - 1) acc →
      MembersWithin (depth - 1) (ms.foldl (fun acc m => insertMember m.1 m.2 acc) acc) := by
    intro ms
    induction ms with
    | nil => exact fun _ _ hacc => hacc
    | cons m ms ih => exact fun acc hms hacc => ih _ hms.2 (membersWithin_insert hms.1 hacc)
  exact ⟨hdepth, hfold ms [] h trivial⟩

mutual

/-- What is read nests no deeper than the reader allows, and its numbers have 64 bits. -/
theorem within_value (depth : Nat) (cs : List Char) (v : Json) (r : Rest cs) (h : value depth cs = .ok (v, r)) :
    v.Within depth := by
  rw [value] at h
  split at h
  · cases h
  · rename_i c r₁ hr₁ hnext
    split at h
    · obtain ⟨⟨w, r₂⟩, hword, heq⟩ := exists_ok_of_map h
      cases heq
      exact within_keyword (v := .null) trivial hword
    · obtain ⟨⟨w, r₂⟩, hword, heq⟩ := exists_ok_of_map h
      cases heq
      exact within_keyword (v := .bool true) trivial hword
    · obtain ⟨⟨w, r₂⟩, hword, heq⟩ := exists_ok_of_map h
      cases heq
      exact within_keyword (v := .bool false) trivial hword
    · obtain ⟨⟨w, r₂⟩, hnumber, heq⟩ := exists_ok_of_map h
      cases heq
      exact within_unsignedNumber hnumber
    · obtain ⟨⟨w, r₂⟩, hnumber, heq⟩ := exists_ok_of_bind h
      cases heq
      trivial
    · split at h
      · cases h
      · rename_i hdepth
        split at h
        · cases h
        · cases h
          exact ⟨Nat.not_le.1 hdepth, trivial⟩
        · obtain ⟨⟨vs, r₂⟩, hitems, heq⟩ := exists_ok_of_bind h
          cases heq
          exact ⟨Nat.not_le.1 hdepth, within_items _ _ _ _ hitems⟩
    · split at h
      · cases h
      · rename_i hdepth
        split at h
        · cases h
        · cases h
          exact ⟨Nat.not_le.1 hdepth, trivial⟩
        · obtain ⟨⟨ms, r₂⟩, hmembers, heq⟩ := exists_ok_of_bind h
          cases heq
          exact within_ofMembers (Nat.not_le.1 hdepth) (within_members _ _ _ _ hmembers)
        · cases h
    · split at h
      · obtain ⟨⟨w, r₂⟩, hnumber, heq⟩ := exists_ok_of_map h
        cases heq
        exact within_unsignedNumber hnumber
      · cases h
termination_by 3 * cs.length + 1
decreasing_by all_goals omega

theorem within_items (depth : Nat) (cs : List Char) (vs : List Json) (r : Rest cs) (h : items depth cs = .ok (vs, r)) :
    ItemsWithin depth vs := by
  rw [items] at h
  obtain ⟨⟨v, r₁, hr₁⟩, hvalue, h⟩ := exists_ok_of_bind h
  have hv := within_value depth cs v _ hvalue
  simp only at h
  split at h
  · cases h
  · cases h
    exact ⟨hv, trivial⟩
  · split at h
    · cases h
    · cases h
    · obtain ⟨⟨ws, r₂⟩, hitems, heq⟩ := exists_ok_of_bind h
      cases heq
      exact ⟨hv, within_items _ _ _ _ hitems⟩
  · cases h
termination_by 3 * cs.length + 2
decreasing_by all_goals omega

theorem within_members (depth : Nat) (cs : List Char) (ms : List (String × Json)) (r : Rest cs)
    (h : members depth cs = .ok (ms, r)) : MembersWithin depth ms := by
  rw [members] at h
  obtain ⟨⟨name, r₀, hr₀⟩, -, h⟩ := exists_ok_of_bind h
  simp only at h
  split at h
  · cases h
  · obtain ⟨⟨v, r₂, hr₂⟩, hvalue, h⟩ := exists_ok_of_bind h
    have hv := within_value depth _ v _ hvalue
    simp only at h
    split at h
    · cases h
    · cases h
      exact ⟨hv, trivial⟩
    · split at h
      · cases h
      · obtain ⟨⟨ws, r₃⟩, hmembers, heq⟩ := exists_ok_of_bind h
        cases heq
        exact ⟨hv, within_members _ _ _ _ hmembers⟩
      · cases h
      · cases h
    · cases h
  · cases h
termination_by 3 * cs.length
decreasing_by all_goals omega

end

/-- A document that was read keeps to the limits of the reader. -/
theorem within_parse {text : String} {v : Json} (h : parse text = .ok v) : v.Within maxDepth := by
  have hdocument : document text.toList = .ok v := by
    rw [parse] at h
    cases hdocument : document text.toList with
    | error fault =>
      rw [hdocument] at h
      cases h
    | ok w =>
      rw [hdocument] at h
      cases h
      rfl
  rw [document] at hdocument
  obtain ⟨⟨w, r, hr⟩, hvalue, h⟩ := exists_ok_of_bind hdocument
  simp only at h
  split at h
  · cases h
    exact within_value _ _ _ _ hvalue
  · cases h

end YangSubscriptions.Json
