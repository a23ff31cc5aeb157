import YangSubscriptions.Instant.Basic

/-!
# Days of the calendar

A day of the cycle of 400 years is written with its century, the four years of it, the year and the day of the year
(`exists_split`). In these terms the divisions that find the year of a day are exact (`yearOfCycle_eq`), so that
`ofDays` gives a day that exists (`isValid_ofDays`) and `toDays` leads back from it (`toDays_ofDays`).
-/

namespace YangSubscriptions.Date

/-- The `d`-th day of the cycle is day `day` of year `100 * q + 4 * k + j`, which begins in March; only a leap year has
a day 365, and the last year of a century is none but in the last century. -/
structure Split (d q k j day : Int) : Prop where
  inCycle : 0 ≤ q ∧ q ≤ 3
  inCentury : 0 ≤ k ∧ k ≤ 24
  inFour : 0 ≤ j ∧ j ≤ 3
  inYear : 0 ≤ day ∧ day ≤ 365
  leap : day = 365 → j = 3 ∧ (k < 24 ∨ q = 3)
  sum : d = 36524 * q + 1461 * k + 365 * j + day

theorem exists_split {d : Int} (h : 0 ≤ d ∧ d < 146097) : ∃ q k j day, Split d q k j day := by
  obtain ⟨q, hq, hcentury, hr⟩ : ∃ q : Int, (0 ≤ q ∧ q ≤ 3) ∧ 36524 * q ≤ d ∧
      (d - 36524 * q < 36524 ∨ q = 3 ∧ d - 36524 * q ≤ 36524) := by
    by_cases hlast : d = 146096
    · exact ⟨3, by omega⟩
    · exact ⟨d / 36524, by omega⟩
  obtain ⟨j, hj, hyear, hs⟩ : ∃ j : Int, (0 ≤ j ∧ j ≤ 3) ∧ 365 * j ≤ (d - 36524 * q) % 1461 ∧
      ((d - 36524 * q) % 1461 - 365 * j < 365 ∨ j = 3 ∧ (d - 36524 * q) % 1461 - 365 * j ≤ 365) := by
    by_cases hlast : (d - 36524 * q) % 1461 = 1460
    · exact ⟨3, by omega⟩
    · exact ⟨(d - 36524 * q) % 1461 / 365, by omega⟩
  exact ⟨q, (d - 36524 * q) / 1461, j, (d - 36524 * q) % 1461 - 365 * j, by omega, by omega, hj, by omega, by omega,
    by omega⟩

variable {d q k j day : Int}

/-- The corrections leave 365 days of each year: of a year of 366 the last day is taken off. -/
theorem Split.yearOfCycle_eq (h : Split d q k j day) :
    (d - d / 1460 + d / 36524 - d / 146096) / 365 = 100 * q + 4 * k + j := by
  obtain ⟨hq, hk, hj, hday, hleap, hsum⟩ := h
  have hfours : d / 1460 = 25 * q + k ∧ 24 * q + k + 365 * j + day < 1460 ∨
      d / 1460 = 25 * q + k + 1 ∧ 1460 ≤ 24 * q + k + 365 * j + day := by omega
  have hcenturies : d / 36524 = q ∧ (day < 365 ∨ k < 24) ∨ d / 36524 = q + 1 ∧ day = 365 ∧ k = 24 := by omega
  have hcycle : d / 146096 = 0 ∧ d < 146096 ∨ d / 146096 = 1 ∧ d = 146096 := by omega
  omega

/-- The days before a year of the cycle. -/
theorem Split.daysBefore_eq (h : Split d q k j day) :
    365 * (100 * q + 4 * k + j) + (100 * q + 4 * k + j) / 4 - (100 * q + 4 * k + j) / 100 =
      36524 * q + 1461 * k + 365 * j := by
  obtain ⟨hq, hk, hj, -, -, -⟩ := h
  have hfours : (100 * q + 4 * k + j) / 4 = 25 * q + k := by omega
  have hcenturies : (100 * q + 4 * k + j) / 100 = q := by omega
  omega

/-- The months from March on, and the days that come before each. -/
theorem Split.month_bounds (h : Split d q k j day) :
    (0 ≤ (5 * day + 2) / 153 ∧ (5 * day + 2) / 153 ≤ 11) ∧
      0 ≤ day - (153 * ((5 * day + 2) / 153) + 2) / 5 ∧ day - (153 * ((5 * day + 2) / 153) + 2) / 5 ≤ 30 := by
  obtain ⟨-, -, -, hday, -, -⟩ := h
  omega

/-- The date of a day from its place in the cycle. -/
theorem exists_ofDays (n : Int) : ∃ q k j day, Split ((n + 719468) % 146097) q k j day ∧
    ofDays n =
      if (5 * day + 2) / 153 < 10 then
        ⟨100 * q + 4 * k + j + 400 * ((n + 719468) / 146097), ((5 * day + 2) / 153 + 3).toNat,
          (day - (153 * ((5 * day + 2) / 153) + 2) / 5 + 1).toNat⟩
      else
        ⟨100 * q + 4 * k + j + 400 * ((n + 719468) / 146097) + 1, ((5 * day + 2) / 153 - 9).toNat,
          (day - (153 * ((5 * day + 2) / 153) + 2) / 5 + 1).toNat⟩ := by
  obtain ⟨q, k, j, day, h⟩ := exists_split (d := (n + 719468) % 146097) (by omega)
  refine ⟨q, k, j, day, h, ?_⟩
  obtain ⟨hmonth, -⟩ := h.month_bounds
  have hdayOfYear : (n + 719468) % 146097 - (36524 * q + 1461 * k + 365 * j) = day := by
    have := h.sum
    omega
  simp only [ofDays, h.yearOfCycle_eq, h.daysBefore_eq, hdayOfYear]
  split
  · rw [if_neg (by omega), Int.add_zero]
  · rw [if_pos (by omega)]

/-- A day is found again from its date. -/
theorem toDays_ofDays (n : Int) : (ofDays n).toDays = n := by
  obtain ⟨q, k, j, day, h, heq⟩ := exists_ofDays n
  obtain ⟨hmonth, hday⟩ := h.month_bounds
  have hbefore := h.daysBefore_eq
  obtain ⟨hq, hk, hj, -, -, hsum⟩ := h
  have hyear : (100 * q + 4 * k + j + 400 * ((n + 719468) / 146097)) % 400 = 100 * q + 4 * k + j := by omega
  have hcycle : (100 * q + 4 * k + j + 400 * ((n + 719468) / 146097)) / 400 = (n + 719468) / 146097 := by omega
  have hdayOfMonth : ((day - (153 * ((5 * day + 2) / 153) + 2) / 5 + 1).toNat : Int) =
      day - (153 * ((5 * day + 2) / 153) + 2) / 5 + 1 := by omega
  rw [heq]
  split
  · have hlate : ¬ ((5 * day + 2) / 153 + 3).toNat ≤ 2 := by omega
    have hshift : (((5 * day + 2) / 153 + 3).toNat : Int) - 3 = (5 * day + 2) / 153 := by omega
    simp only [toDays, if_neg hlate, hyear, hcycle, hshift, hdayOfMonth, hbefore]
    omega
  · have hearly : ((5 * day + 2) / 153 - 9).toNat ≤ 2 := by omega
    have hshift : (((5 * day + 2) / 153 - 9).toNat : Int) + 9 = (5 * day + 2) / 153 := by omega
    simp only [toDays, if_pos hearly, Int.add_sub_cancel, hyear, hcycle, hshift, hdayOfMonth, hbefore]
    omega

/-- The year that ends with a day 365 has a 29th of February. -/
theorem Split.isLeap (h : Split d q k j 365) (c : Int) : isLeap (100 * q + 4 * k + j + 400 * c + 1) = true := by
  obtain ⟨rfl, hlast⟩ := h.leap rfl
  obtain ⟨hq, hk, -, -, -, -⟩ := h
  have hfour : (100 * q + 4 * k + 3 + 400 * c + 1) % 4 = 0 := by omega
  have hcentury : (100 * q + 4 * k + 3 + 400 * c + 1) % 100 ≠ 0 ∨ (100 * q + 4 * k + 3 + 400 * c + 1) % 400 = 0 := by
    omega
  simpa [Date.isLeap, hfour] using hcentury

/-- The day exists in its month. -/
theorem isValid_ofDays (n : Int) : (ofDays n).isValid = true := by
  obtain ⟨q, k, j, day, h, heq⟩ := exists_ofDays n
  obtain ⟨hmonth, hday⟩ := h.month_bounds
  have hinYear := h.inYear
  rw [heq]
  obtain ⟨m, hm⟩ : ∃ m, (5 * day + 2) / 153 = m := ⟨_, rfl⟩
  have hcases : m = 11 ∨ m = 10 ∨ m = 9 ∨ m = 8 ∨ m = 7 ∨ m = 6 ∨ m = 5 ∨ m = 4 ∨ m = 3 ∨ m = 2 ∨ m = 1 ∨ m = 0 := by
    omega
  -- only February, the last month of such a year, has a length that depends on the year
  rcases hcases with rfl | hcases
  · simp only [hm, isValid, monthLength]
    by_cases hlast : day = 365
    · subst hlast
      simp [h.isLeap]
    · have : 28 ≤ if Date.isLeap (100 * q + 4 * k + j + 400 * ((n + 719468) / 146097) + 1) = true then 29 else 28 := by
        split <;> omega
      simp
      omega
  · rcases hcases with rfl | rfl | rfl | rfl | rfl | rfl | rfl | rfl | rfl | rfl | rfl
    all_goals
      simp [hm, isValid, monthLength]
      omega

end YangSubscriptions.Date
