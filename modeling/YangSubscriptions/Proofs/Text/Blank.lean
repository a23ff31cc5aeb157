import Mathlib.Data.List.TakeWhile
import YangSubscriptions.Text.Blank

/-!
# Trimming and cutting

What is trimmed is the text between the outer blanks: `trimChars_eq_iff` says so both ways, so that a text can be
taken apart at the blanks and put together again. Cutting is said in the same way.
-/

namespace YangSubscriptions.Text

/-- Nothing but blanks. -/
def Blank (cs : List Char) : Prop := ∀ c ∈ cs, isBlank c = true

/-- No blank at either end. -/
structure Trimmed (cs : List Char) : Prop where
  head : ∀ c ∈ cs.head?, isBlank c = false
  last : ∀ c ∈ cs.getLast?, isBlank c = false

theorem Blank.nil : Blank [] := nofun

theorem Blank.append {g g' : List Char} (h : Blank g) (h' : Blank g') : Blank (g ++ g') := fun c hc =>
  (List.mem_append.1 hc).elim (h c) (h' c)

theorem Blank.reverse {g : List Char} (h : Blank g) : Blank g.reverse := fun c hc => h c (List.mem_reverse.1 hc)

/-- A character of a class without blanks is none. -/
theorem isBlank_eq_false {p : Char → Bool} (hblanks : (blanks.all fun d => !p d) = true) {c : Char}
    (h : p c = true) : isBlank c = false := by
  cases hc : isBlank c with
  | false => rfl
  | true =>
    have hno := List.all_eq_true.1 hblanks c (List.contains_iff_mem.1 hc)
    rw [h] at hno
    cases hno

theorem isBlank_of_isDigit {c : Char} (h : c.isDigit = true) : isBlank c = false := isBlank_eq_false (by decide) h

/-! ## Runs of characters -/

section
variable {p : Char → Bool} {run rest : List Char}

theorem takeWhile_append_eq (hrun : ∀ c ∈ run, p c = true) (hrest : ∀ c ∈ rest.head?, p c = false) :
    (run ++ rest).takeWhile p = run := by
  rw [List.takeWhile_append_of_pos hrun]
  cases rest with
  | nil => simp
  | cons c r => simp [hrest c rfl]

theorem dropWhile_append_eq (hrun : ∀ c ∈ run, p c = true) (hrest : ∀ c ∈ rest.head?, p c = false) :
    (run ++ rest).dropWhile p = rest := by
  rw [List.dropWhile_append_of_pos hrun]
  cases rest with
  | nil => simp
  | cons c r => simp [hrest c rfl]

end

/-! ## One end -/

theorem dropBlanks_append {g : List Char} (h : Blank g) (cs : List Char) : dropBlanks (g ++ cs) = dropBlanks cs :=
  List.dropWhile_append_of_pos h

theorem dropBlanks_cons {c : Char} (h : isBlank c = false) (r : List Char) : dropBlanks (c :: r) = c :: r :=
  List.dropWhile_cons_of_neg (by rw [h]; exact Bool.false_ne_true)

theorem dropBlanks_eq_self {cs : List Char} (h : ∀ c ∈ cs.head?, isBlank c = false) : dropBlanks cs = cs := by
  cases cs with
  | nil => rfl
  | cons c r => exact dropBlanks_cons (h c rfl) r

theorem exists_dropBlanks (cs : List Char) : ∃ g, Blank g ∧ cs = g ++ dropBlanks cs :=
  ⟨cs.takeWhile isBlank, fun _ hc => List.mem_takeWhile_imp hc, List.takeWhile_append_dropWhile.symm⟩

theorem head_dropBlanks (cs : List Char) : ∀ c ∈ (dropBlanks cs).head?, isBlank c = false := by
  induction cs with
  | nil => nofun
  | cons c r ih =>
    intro d hd
    cases hc : isBlank c with
    | true =>
      rw [dropBlanks, List.dropWhile_cons_of_pos hc] at hd
      exact ih d hd
    | false =>
      rw [dropBlanks_cons hc] at hd
      rw [← Option.some.inj hd, hc]

theorem dropBlanks_eq_nil {cs : List Char} : dropBlanks cs = [] ↔ Blank cs := List.dropWhile_eq_nil_iff

theorem dropBlanksEnd_append {g : List Char} (h : Blank g) (cs : List Char) :
    dropBlanksEnd (cs ++ g) = dropBlanksEnd cs := by
  rw [dropBlanksEnd, List.reverse_append]
  exact congrArg List.reverse (dropBlanks_append h.reverse cs.reverse)

theorem dropBlanksEnd_eq_self {cs : List Char} (h : ∀ c ∈ cs.getLast?, isBlank c = false) : dropBlanksEnd cs = cs := by
  have hreverse : dropBlanks cs.reverse = cs.reverse := dropBlanks_eq_self (by rwa [List.head?_reverse])
  rw [dropBlanksEnd]
  exact (congrArg List.reverse hreverse).trans cs.reverse_reverse

theorem last_dropBlanksEnd (cs : List Char) : ∀ c ∈ (dropBlanksEnd cs).getLast?, isBlank c = false := by
  rw [dropBlanksEnd, List.getLast?_reverse]
  exact head_dropBlanks cs.reverse

theorem exists_dropBlanksEnd (cs : List Char) : ∃ g, Blank g ∧ cs = dropBlanksEnd cs ++ g := by
  obtain ⟨g, hg, hcs⟩ := exists_dropBlanks cs.reverse
  refine ⟨g.reverse, hg.reverse, ?_⟩
  have hreverse := congrArg List.reverse hcs
  rwa [List.reverse_reverse, List.reverse_append] at hreverse

theorem dropBlanksEnd_cons {c : Char} (h : isBlank c = false) (r : List Char) :
    dropBlanksEnd (c :: r) = c :: dropBlanksEnd r := by
  obtain ⟨g, hg, hr⟩ := exists_dropBlanksEnd r
  have hlast : ∀ d ∈ (c :: dropBlanksEnd r).getLast?, isBlank d = false := by
    intro d hd
    rw [List.getLast?_cons] at hd
    cases hend : (dropBlanksEnd r).getLast? with
    | none =>
      rw [hend] at hd
      exact Option.some.inj hd ▸ h
    | some e =>
      rw [hend] at hd
      exact last_dropBlanksEnd r d (hend.trans hd)
  calc dropBlanksEnd (c :: r)
      = dropBlanksEnd ((c :: dropBlanksEnd r) ++ g) := congrArg (fun x => dropBlanksEnd (c :: x)) hr
    _ = dropBlanksEnd (c :: dropBlanksEnd r) := dropBlanksEnd_append hg _
    _ = c :: dropBlanksEnd r := dropBlanksEnd_eq_self hlast

/-! ## Both ends -/

theorem trimChars_append {g g' : List Char} (h : Blank g) (h' : Blank g') (cs : List Char) :
    trimChars (g ++ cs ++ g') = trimChars cs := by
  have hend : trimChars (cs ++ g') = trimChars cs := by
    obtain ⟨f, hf, hcs⟩ := exists_dropBlanks cs
    rw [trimChars, trimChars]
    by_cases hblank : Blank cs
    · rw [dropBlanks_eq_nil.2 hblank, dropBlanks_eq_nil.2 (hblank.append h')]
    · have hne : dropBlanks cs ≠ [] := fun hnil => hblank (dropBlanks_eq_nil.1 hnil)
      have hhead : ∀ c ∈ (dropBlanks cs ++ g').head?, isBlank c = false := by
        rw [List.head?_append, List.head?_eq_some_head hne, Option.some_or, ← List.head?_eq_some_head hne]
        exact head_dropBlanks cs
      rw [hcs, List.append_assoc, dropBlanks_append hf, dropBlanks_append hf, dropBlanks_eq_self hhead,
        dropBlanksEnd_append h', dropBlanks_eq_self (head_dropBlanks cs)]
  rw [List.append_assoc, trimChars, dropBlanks_append h]
  exact hend

/-- Trimmed is what follows a first character that is not blank, at its end only. -/
theorem trimChars_cons {g : List Char} (h : Blank g) {c : Char} (hc : isBlank c = false) (r : List Char) :
    trimChars (g ++ c :: r) = c :: dropBlanksEnd r := by
  rw [trimChars, dropBlanks_append h, dropBlanks_cons hc, dropBlanksEnd_cons hc]

theorem trimChars_eq_self {cs : List Char} (h : Trimmed cs) : trimChars cs = cs := by
  rw [trimChars, dropBlanks_eq_self h.head, dropBlanksEnd_eq_self h.last]

/-- Without blanks a text is trimmed. -/
theorem trim_eq_self {s : String} (h : ∀ c ∈ s.toList, isBlank c = false) : trim s = s := by
  have htrimmed : Trimmed s.toList :=
    ⟨fun c hc => h c (List.mem_of_mem_head? hc), fun c hc => h c (List.mem_of_mem_getLast? hc)⟩
  rw [trim, trimChars_eq_self htrimmed, String.ofList_toList]

theorem exists_trimChars (cs : List Char) : ∃ g g', Blank g ∧ Blank g' ∧ cs = g ++ trimChars cs ++ g' := by
  obtain ⟨g, hg, hcs⟩ := exists_dropBlanks cs
  obtain ⟨g', hg', hcs'⟩ := exists_dropBlanksEnd (dropBlanks cs)
  refine ⟨g, g', hg, hg', ?_⟩
  rw [List.append_assoc, trimChars, ← hcs', ← hcs]

theorem trimmed_trimChars (cs : List Char) : Trimmed (trimChars cs) := by
  refine ⟨fun c hc => ?_, last_dropBlanksEnd (dropBlanks cs)⟩
  obtain ⟨g, -, hcs⟩ := exists_dropBlanksEnd (dropBlanks cs)
  have hhead : (dropBlanksEnd (dropBlanks cs)).head? = some c := hc
  refine head_dropBlanks cs c ?_
  rw [hcs, List.head?_append, hhead]
  rfl

theorem trimChars_eq_iff {cs core : List Char} :
    trimChars cs = core ↔ Trimmed core ∧ ∃ g g', Blank g ∧ Blank g' ∧ cs = g ++ core ++ g' := by
  constructor
  · rintro rfl
    exact ⟨trimmed_trimChars cs, exists_trimChars cs⟩
  · rintro ⟨hcore, g, g', hg, hg', rfl⟩
    rw [trimChars_append hg hg', trimChars_eq_self hcore]

/-! ## Cutting -/

theorem cutChars_append {c : Char} {a : List Char} (h : c ∉ a) (b : List Char) :
    cutChars c (a ++ c :: b) = some (a, b) := by
  induction a with
  | nil => simp [cutChars]
  | cons d a ih =>
    rw [List.mem_cons, not_or] at h
    rw [List.cons_append, cutChars, if_neg (Ne.symm h.1), ih h.2, Option.map_some]

theorem cutChars_eq_none {c : Char} {cs : List Char} : cutChars c cs = none ↔ c ∉ cs := by
  constructor
  · intro h hc
    obtain ⟨a, b, rfl, ha⟩ := List.eq_append_cons_of_mem hc
    rw [cutChars_append ha] at h
    cases h
  · intro h
    cases hcut : cutChars c cs with
    | none => rfl
    | some p =>
      obtain ⟨rfl, -⟩ := cutChars_eq_some hcut
      exact absurd (List.mem_append_right _ List.mem_cons_self) h

end YangSubscriptions.Text
