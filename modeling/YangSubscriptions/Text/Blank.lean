/-!
# Blanks and cuts

The characters with the Unicode property `White_Space`, trimming by it, and cutting a text at the
first or last occurrence of a separator. The readers of names, requests and filters all go through
these.
-/

namespace YangSubscriptions.Text

/-- The characters with the property `White_Space`. -/
def blanks : List Char :=
  ['\t', '\n', '\x0b', '\x0c', '\x0d', ' ', '\u0085', '\u00a0', '\u1680', '\u2000', '\u2001', '\u2002', '\u2003',
    '\u2004', '\u2005', '\u2006', '\u2007', '\u2008', '\u2009', '\u200a', '\u2028', '\u2029', '\u202f', '\u205f',
    '\u3000']

def isBlank (c : Char) : Bool := blanks.contains c

/-- The ASCII blanks: space, tab, line feed, form feed and carriage return. -/
def isAsciiBlank (c : Char) : Bool := c = ' ' || c = '\t' || c = '\n' || c = '\x0c' || c = '\x0d'

/-- The text from its first character that is not blank. -/
def dropBlanks (cs : List Char) : List Char := cs.dropWhile isBlank

/-- The text up to its last character that is not blank. -/
def dropBlanksEnd (cs : List Char) : List Char := (cs.reverse.dropWhile isBlank).reverse

/-- The text without the blanks at its two ends. -/
def trimChars (cs : List Char) : List Char := dropBlanksEnd (dropBlanks cs)

def trim (s : String) : String := String.ofList (trimChars s.toList)

/-- What stands before and after the first `c`. -/
def cutChars (c : Char) : List Char → Option (List Char × List Char)
  | [] => none
  | d :: r => if d = c then some ([], r) else (cutChars c r).map fun (a, b) => (d :: a, b)

theorem cutChars_eq_some {c : Char} {cs a b : List Char} (h : cutChars c cs = some (a, b)) :
    cs = a ++ c :: b ∧ c ∉ a := by
  induction cs generalizing a b with
  | nil => simp [cutChars] at h
  | cons d r ih =>
    simp only [cutChars] at h
    split at h
    · rename_i hd
      simp only [Option.some.injEq, Prod.mk.injEq] at h
      obtain ⟨rfl, rfl⟩ := h
      simp [hd]
    · rename_i hd
      cases hr : cutChars c r with
      | none => simp [hr] at h
      | some p =>
        obtain ⟨a', b'⟩ := p
        simp only [hr, Option.map_some, Option.some.injEq, Prod.mk.injEq] at h
        obtain ⟨rfl, rfl⟩ := h
        obtain ⟨h1, h2⟩ := ih hr
        exact ⟨by simp [h1], by simp only [List.mem_cons, not_or]; exact ⟨fun e => hd e.symm, h2⟩⟩

/-- Cuts at the first `c`. -/
def cut? (c : Char) (s : String) : Option (String × String) :=
  (cutChars c s.toList).map fun (a, b) => (String.ofList a, String.ofList b)

/-- Cuts at the last `c`. -/
def cutLast? (c : Char) (s : String) : Option (String × String) :=
  (cutChars c s.toList.reverse).map fun (b, a) => (String.ofList a.reverse, String.ofList b.reverse)

/-- The pieces between the occurrences of `c`; at least one, possibly empty. -/
def pieces (c : Char) : List Char → List (List Char)
  | [] => [[]]
  | d :: r =>
    if d = c then [] :: pieces c r
    else
      match pieces c r with
      | [] => [[d]]
      | p :: ps => (d :: p) :: ps

end YangSubscriptions.Text
