import YangSubscriptions.Instant.Basic

/-!
# The order of instants

Instants are ordered by their seconds, and those of one second by the fraction; every two of them can be compared.
-/

namespace YangSubscriptions

namespace Instant

/-- Earlier is by the second, then within it. -/
theorem lt_iff {s t : Instant} : s < t ↔ s.seconds < t.seconds ∨ (s.seconds = t.seconds ∧ s.nanos < t.nanos) := by
  show s.lt t = true ↔ _
  simp [lt]

theorem le_iff {s t : Instant} : s ≤ t ↔ s.seconds < t.seconds ∨ (s.seconds = t.seconds ∧ s.nanos ≤ t.nanos) := by
  have hle : s ≤ t ↔ ¬ t < s := by
    show s.le t = true ↔ ¬ t.lt s = true
    simp [le]
  rw [hle, lt_iff]
  omega

theorem le_refl (t : Instant) : t ≤ t := le_iff.2 (by omega)

theorem le_trans {s t u : Instant} (h : s ≤ t) (h' : t ≤ u) : s ≤ u := by
  rw [le_iff] at *
  omega

theorem le_antisymm {s t : Instant} (h : s ≤ t) (h' : t ≤ s) : s = t := by
  obtain ⟨seconds, nanos⟩ := s
  obtain ⟨seconds', nanos'⟩ := t
  rw [le_iff] at h h'
  simp only at h h'
  congr <;> omega

theorem le_total (s t : Instant) : s ≤ t ∨ t ≤ s := by
  rw [le_iff, le_iff]
  omega

theorem not_lt {s t : Instant} : ¬ s < t ↔ t ≤ s := by
  rw [lt_iff, le_iff]
  omega

theorem lt_of_lt_of_le {s t u : Instant} (h : s < t) (h' : t ≤ u) : s < u := by
  rw [lt_iff, le_iff] at *
  omega

end Instant

end YangSubscriptions
