import Mathlib.Algebra.Group.Nat.Defs
import YangSubscriptions.Instant.Rfc3339
import YangSubscriptions.Proofs.Except
import YangSubscriptions.Proofs.Instant.Calendar
import YangSubscriptions.Proofs.Text.Blank

/-!
# Instants are read as they are written

Numbers of a fixed width are read back with whatever follows them (`digits_padded`), and so is a fraction however many
digits it is written with (`fractionChars_cases`). With the calendar this gives back every instant of a year that has
four digits (`parse_render`).
-/

namespace YangSubscriptions.Instant

/-! ## Numbers -/

theorem digits_append {ds : List Char} (hds : ∀ c ∈ ds, c.isDigit = true) (acc : Nat) (rest : List Char) :
    digits ds.length acc (ds ++ rest) = .ok (Nat.ofDigitChars 10 ds acc, rest) := by
  induction ds generalizing acc with
  | nil => rfl
  | cons c ds ih =>
    rw [List.length_cons, List.cons_append, digits, if_pos (hds c List.mem_cons_self),
      ih fun d hd => hds d (List.mem_cons_of_mem c hd), Nat.ofDigitChars_cons]
    rfl

theorem oneOf_cons {allowed : List Char} {c : Char} (h : c ∈ allowed) {r : List Char} : oneOf allowed (c :: r) = .ok r := by
  rw [oneOf, if_pos (List.contains_iff_mem.2 h)]

section
variable {w n : Nat}

theorem length_padded (hw : 0 < w) (hn : n < 10 ^ w) : (padded w n).length = w := by
  have := (Nat.length_toDigits_le_iff (by decide) hw).2 hn
  simp only [padded, List.length_append, List.length_replicate]
  omega

theorem isDigit_padded : ∀ c ∈ padded w n, c.isDigit = true := by
  intro c hc
  rcases List.mem_append.1 hc with hc | hc
  · rw [List.eq_of_mem_replicate hc]
    rfl
  · exact Nat.isDigit_of_mem_toDigits (by decide) (by decide) hc

theorem ofDigitChars_padded : Nat.ofDigitChars 10 (padded w n) 0 = n := by
  simp [padded, Nat.ofDigitChars_append, Nat.ofDigitChars_replicate_zero]

theorem digits_padded (hw : 0 < w) (hn : n < 10 ^ w) (rest : List Char) :
    digits w 0 (padded w n ++ rest) = .ok (n, rest) := by
  have h := digits_append (isDigit_padded (w := w) (n := n)) 0 rest
  rwa [length_padded hw hn, ofDigitChars_padded] at h

theorem fraction_padded (hw : 0 < w) (hw' : w ≤ 9) (hn : n < 10 ^ w) {rest : List Char}
    (hrest : ∀ c ∈ rest.head?, c.isDigit = false) :
    fraction (padded w n ++ rest) = .ok (n * 10 ^ (9 - w), rest) := by
  have hlength := length_padded hw hn
  have hempty : (padded w n).isEmpty = false := by
    rw [List.isEmpty_eq_false_iff_exists_mem, ← List.length_pos_iff_exists_mem]
    omega
  have hfold : (padded w n).foldl (fun n c => 10 * n + (c.toNat - 48)) 0 = n := ofDigitChars_padded
  rw [fraction, Text.takeWhile_append_eq isDigit_padded hrest, Text.dropWhile_append_eq isDigit_padded hrest, hempty]
  simp only [Bool.false_eq_true, if_false]
  rw [List.take_of_length_le (by omega), hfold, hlength]
  rfl

end

/-- A fraction is left out or else written with as many digits as give back what it is. -/
theorem fractionChars_cases {nanos : Nat} (h : nanos < 10 ^ 9) :
    nanos = 0 ∧ fractionChars nanos = [] ∨ ∃ r, fractionChars nanos = '.' :: r ∧
      ∀ rest : List Char, (∀ c ∈ rest.head?, c.isDigit = false) → fraction (r ++ rest) = .ok (nanos, rest) := by
  unfold fractionChars
  split
  · left; exact ⟨‹_›, rfl⟩
  · right
    split
    · refine ⟨_, rfl, fun rest hrest => ?_⟩
      rw [fraction_padded (by decide) (by decide) (by omega) hrest, show 10 ^ (9 - 3) = 1000000 from rfl,
        Nat.div_mul_cancel (by omega)]
    · split
      · refine ⟨_, rfl, fun rest hrest => ?_⟩
        rw [fraction_padded (by decide) (by decide) (by omega) hrest, show 10 ^ (9 - 6) = 1000 from rfl,
          Nat.div_mul_cancel (by omega)]
      · refine ⟨_, rfl, fun rest hrest => ?_⟩
        rw [fraction_padded (by decide) (by decide) h hrest, Nat.sub_self, Nat.pow_zero, Nat.mul_one]

/-! ## Instants -/

/-- An instant as clocks have it: a fraction of a second or more only in the second that a leap second may follow. -/
def IsOnClock (t : Instant) : Prop := t.nanos < 1000000000 ∨ t.nanos < 2000000000 ∧ t.seconds % 60 = 59

instance (t : Instant) : Decidable t.IsOnClock := inferInstanceAs (Decidable (_ ∨ _))

/-- The year of an instant. -/
def year (t : Instant) : Int := (Date.ofDays (t.seconds / 86400)).year

/-- The fields of a date and a time as they are written. -/
def fields (year month day hour minute second nanos : Nat) : List Char :=
  padded 4 year ++ '-' :: (padded 2 month ++ '-' :: (padded 2 day ++ 'T' :: (padded 2 hour ++ ':' :: (padded 2 minute ++
    ':' :: (padded 2 second ++ (fractionChars nanos ++ ['Z']))))))

theorem parseChars_fields {year month day hour minute second nanos : Nat} (hyear : year < 10000)
    (hdate : (⟨year, month, day⟩ : Date).isValid = true) (hhour : hour ≤ 23) (hminute : minute ≤ 59)
    (hsecond : second ≤ 60) (hnanos : nanos < 10 ^ 9) :
    parseChars (fields year month day hour minute second nanos) =
      .ok ⟨(⟨year, month, day⟩ : Date).toDays * 86400 +
          (hour * 3600 + minute * 60 + (second - if second = 60 then 1 else 0) : Nat),
        nanos + (if second = 60 then 1 else 0) * 1000000000⟩ := by
  have hvalid := hdate
  simp only [Date.isValid, Bool.and_eq_true, decide_eq_true_eq] at hvalid
  have hlong : Date.monthLength year month ≤ 31 := by
    unfold Date.monthLength
    split <;> try split
    all_goals omega
  have hlength : 19 ≤ (fields year month day hour minute second nanos).length := by
    simp only [fields, List.length_append, List.length_cons, length_padded (w := 4) (n := year) (by decide) (by omega),
      length_padded (w := 2) (n := month) (by decide) (by omega), length_padded (w := 2) (n := day) (by decide) (by omega),
      length_padded (w := 2) (n := hour) (by decide) (by omega),
      length_padded (w := 2) (n := minute) (by decide) (by omega),
      length_padded (w := 2) (n := second) (by decide) (by omega)]
    omega
  have hbytes := Text.length_le_byteLength (fields year month day hour minute second nanos)
  rw [parseChars, if_neg (by omega), fields]
  have hdigits : ∀ n rest, n < 100 → digits 2 0 (padded 2 n ++ rest) = .ok (n, rest) := fun n rest hn =>
    digits_padded (by decide) (by omega) rest
  refine ok_of_bind (digits_padded (by decide) (by omega) _) ?_
  refine ok_of_bind (oneOf_cons (by decide)) (ok_of_bind (hdigits month _ (by omega)) ?_)
  refine ok_of_bind (oneOf_cons (by decide)) (ok_of_bind (hdigits day _ (by omega)) ?_)
  dsimp only
  rw [hdate]
  refine ok_of_bind (oneOf_cons (by decide)) (ok_of_bind (hdigits hour _ (by omega)) ?_)
  refine ok_of_bind (oneOf_cons (by decide)) (ok_of_bind (hdigits minute _ (by omega)) ?_)
  refine ok_of_bind (oneOf_cons (by decide)) (ok_of_bind (hdigits second _ (by omega)) ?_)
  have hclock : ¬ (23 < hour ∨ 59 < minute ∨ 60 < second) := by omega
  rcases fractionChars_cases hnanos with ⟨rfl, hnone⟩ | ⟨r, hsome, hfraction⟩
  · rw [hnone]
    dsimp only [List.nil_append]
    refine ok_of_bind rfl ?_
    rw [if_neg hclock]
    simp [offset, bind, Except.bind]
  · rw [hsome]
    refine ok_of_bind (hfraction ['Z'] (by simp)) ?_
    dsimp only
    rw [if_neg hclock]
    simp [offset, bind, Except.bind]

theorem chars_eq_fields {t : Instant} (hyear : 0 ≤ t.year ∧ t.year ≤ 9999) :
    t.chars = fields (Date.ofDays (t.seconds / 86400)).year.toNat (Date.ofDays (t.seconds / 86400)).month
      (Date.ofDays (t.seconds / 86400)).day ((t.seconds % 86400).toNat / 3600) ((t.seconds % 86400).toNat / 60 % 60)
      ((t.seconds % 86400).toNat % 60 + if t.nanos < 1000000000 then 0 else 1)
      (t.nanos - (if t.nanos < 1000000000 then 0 else 1) * 1000000000) := by
  unfold year at hyear
  unfold chars fields
  simp only [yearChars]
  rw [if_pos hyear]
  simp only [List.append_assoc, List.cons_append]

/-- Every instant of a clock in a year of four digits is read as it is written. -/
theorem parse_render {t : Instant} (hclock : t.IsOnClock) (hyear : 0 ≤ t.year ∧ t.year ≤ 9999) :
    parse t.render = .ok t := by
  rw [parse, render, String.toList_ofList, chars_eq_fields hyear]
  unfold year at hyear
  have hdate : (⟨((Date.ofDays (t.seconds / 86400)).year.toNat : Int), (Date.ofDays (t.seconds / 86400)).month,
      (Date.ofDays (t.seconds / 86400)).day⟩ : Date) = Date.ofDays (t.seconds / 86400) := by
    rw [Int.toNat_of_nonneg hyear.1]
  have hvalid := Date.isValid_ofDays (t.seconds / 86400)
  rw [← hdate] at hvalid
  have hnanos : t.nanos < 2000000000 := by
    rcases hclock with h | h <;> omega
  rw [parseChars_fields (by omega) hvalid (by omega) (by omega) (by split <;> omega) (by split <;> omega), hdate,
    Date.toDays_ofDays]
  by_cases hleap : t.nanos < 1000000000
  · have hsecond : (t.seconds % 86400).toNat % 60 ≠ 60 := by omega
    simp only [if_pos hleap, Nat.add_zero, if_neg hsecond]
    have hseconds : t.seconds / 86400 * 86400 + (((t.seconds % 86400).toNat / 3600 * 3600 +
        (t.seconds % 86400).toNat / 60 % 60 * 60 + ((t.seconds % 86400).toNat % 60 - 0) : Nat) : Int) = t.seconds := by
      omega
    rw [hseconds]
    simp
  · have hsecond : (t.seconds % 86400).toNat % 60 + 1 = 60 := by
      rcases hclock with h | h <;> omega
    simp only [if_neg hleap, hsecond, if_true]
    have hseconds : t.seconds / 86400 * 86400 + (((t.seconds % 86400).toNat / 3600 * 3600 +
        (t.seconds % 86400).toNat / 60 % 60 * 60 + (60 - 1) : Nat) : Int) = t.seconds := by
      omega
    have hfraction : t.nanos - 1 * 1000000000 + 1 * 1000000000 = t.nanos := by omega
    rw [hseconds, hfraction]

/-! ## Blanks -/

theorem not_blank_padded (w n : Nat) : ∀ c ∈ padded w n, Text.isBlank c = false := fun _ hc =>
  Text.isBlank_of_isDigit (isDigit_padded _ hc)

theorem not_blank_fraction (nanos : Nat) : ∀ c ∈ fractionChars nanos, Text.isBlank c = false := by
  unfold fractionChars
  split
  · simp
  · split
    · simpa using ⟨by decide, not_blank_padded 3 (nanos / 1000000)⟩
    · split
      · simpa using ⟨by decide, not_blank_padded 6 (nanos / 1000)⟩
      · simpa using ⟨by decide, not_blank_padded 9 nanos⟩

theorem not_blank_fields (year month day hour minute second nanos : Nat) :
    ∀ c ∈ fields year month day hour minute second nanos, Text.isBlank c = false := by
  simp only [fields, List.mem_append, List.mem_cons, List.not_mem_nil, or_false]
  rintro c (hc | rfl | hc | rfl | hc | rfl | hc | rfl | hc | rfl | hc | hc | rfl)
  all_goals first
    | exact not_blank_fraction _ _ hc
    | exact not_blank_padded _ _ _ hc
    | decide

theorem not_blank_render {t : Instant} (hyear : 0 ≤ t.year ∧ t.year ≤ 9999) :
    ∀ c ∈ t.render.toList, Text.isBlank c = false := by
  rw [render, String.toList_ofList, chars_eq_fields hyear]
  exact not_blank_fields _ _ _ _ _ _ _

end YangSubscriptions.Instant
