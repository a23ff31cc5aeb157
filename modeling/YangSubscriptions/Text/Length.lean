/-!
# The length of a text

Texts are characters here, but positions in a document and the least length of a date count bytes
of UTF-8.
-/

namespace YangSubscriptions.Text

/-- How many bytes the text takes in UTF-8. -/
def byteLength : List Char → Nat
  | [] => 0
  | c :: r => c.utf8Size + byteLength r

theorem length_le_byteLength (cs : List Char) : cs.length ≤ byteLength cs := by
  induction cs with
  | nil => simp [byteLength]
  | cons c r ih =>
    have := c.utf8Size_pos
    simp only [List.length_cons, byteLength]
    omega

end YangSubscriptions.Text
