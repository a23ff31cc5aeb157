/-!
# Digits of numbers

The digits of a number in a base, as they are written: what holds of a single digit, and is kept when one more digit is
put behind, holds of all of them (`toDigits_induction`).
-/

namespace YangSubscriptions.Text

section
variable {b : Nat}

theorem toDigits_induction (hb : 1 < b) {P : Nat → List Char → Prop} (single : ∀ d < b, P d [d.digitChar])
    (behind : ∀ n d ds, 0 < n → d < b → P n ds → P (b * n + d) (ds ++ [d.digitChar])) (n : Nat) :
    P n (Nat.toDigits b n) := by
  induction n using Nat.strongRecOn with
  | _ n ih =>
    by_cases hlt : n < b
    · rw [Nat.toDigits_of_lt_base hlt]
      exact single n hlt
    · have hle : b ≤ n := Nat.not_lt.1 hlt
      have hpos : 0 < n / b := Nat.div_pos hle (by omega)
      have hfront := ih (n / b) (Nat.div_lt_self (by omega) hb)
      have hall := behind (n / b) (n % b) _ hpos (Nat.mod_lt n (by omega)) hfront
      rwa [Nat.div_add_mod, ← Nat.toDigits_of_base_le hb hle] at hall

/-- The digits of a number other than zero do not begin with a zero. -/
theorem exists_toDigits (hb : 1 < b) {n : Nat} (hn : n ≠ 0) : ∃ c ds, Nat.toDigits b n = c :: ds ∧ c ≠ '0' := by
  have hall := toDigits_induction hb (P := fun n ds => n ≠ 0 → ∃ c r, ds = c :: r ∧ c ≠ '0')
    (fun d _ hd => ⟨d.digitChar, [], rfl, by rwa [ne_eq, Nat.digitChar_eq_zero]⟩)
    (by
      rintro n d ds hpos - hds -
      obtain ⟨c, r, rfl, hc⟩ := hds (Nat.ne_of_gt hpos)
      exact ⟨c, r ++ [d.digitChar], rfl, hc⟩) n
  exact hall hn

/-- What holds of each digit below the base holds of the digits of a number. -/
theorem forall_mem_toDigits (hb : 1 < b) {Q : Char → Prop} (h : ∀ d < b, Q d.digitChar) (n : Nat) :
    ∀ c ∈ Nat.toDigits b n, Q c := by
  refine toDigits_induction hb (P := fun _ ds => ∀ c ∈ ds, Q c) ?_ ?_ n
  · intro d hd c hc
    exact List.mem_singleton.1 hc ▸ h d hd
  · intro n d ds _ hd hds c hc
    rcases List.mem_append.1 hc with hc | hc
    · exact hds c hc
    · exact List.mem_singleton.1 hc ▸ h d hd

/-- The digits are read as the number, in whatever way a single digit is read. -/
theorem foldl_toDigits (hb : 1 < b) {value : Char → Nat} (h : ∀ d < b, value d.digitChar = d) (n : Nat) :
    (Nat.toDigits b n).foldl (fun acc c => b * acc + value c) 0 = n := by
  refine toDigits_induction hb (P := fun n ds => ds.foldl (fun acc c => b * acc + value c) 0 = n) ?_ ?_ n
  · intro d hd
    rw [List.foldl_cons, List.foldl_nil, h d hd, Nat.mul_zero, Nat.zero_add]
  · intro n d ds _ hd hds
    rw [List.foldl_append, hds, List.foldl_cons, List.foldl_nil, h d hd]

end

end YangSubscriptions.Text
