import YangSubscriptions.Filter.Json
import YangSubscriptions.Proofs.Except
import YangSubscriptions.Proofs.Text.Blank

/-!
# Names of filter nodes in JSON

A member names a filter node by what stands before and after its first colon. Such names are `Readable`, and each
readable name is read of the member that it is written as (`ofMember_render`).
-/

namespace YangSubscriptions.NodeName

/-- What a member can name: the local name is not empty, a module neither, and the colon that ends the module is the
first one. -/
def Readable (n : NodeName) : Prop :=
  n.name ≠ "" ∧
    match n.module with
    | some m => m ≠ "" ∧ ':' ∉ m.toList
    | none => ':' ∉ n.name.toList

instance (n : NodeName) : Decidable n.Readable := by
  unfold Readable
  cases n.module <;> infer_instance

theorem parse_bare {s : String} (h : ':' ∉ s.toList) : parse s = bare s := by
  rw [parse, Text.cut?, Text.cutChars_eq_none.2 h]
  rfl

theorem parse_qualified {m : String} (h : ':' ∉ m.toList) (s : String) : parse (m ++ ":" ++ s) = qualified m s := by
  have hcut : Text.cutChars ':' (m ++ ":" ++ s).toList = some (m.toList, s.toList) := by
    rw [← Text.cutChars_append h]
    simp
  rw [parse, Text.cut?, hcut]
  simp

theorem ofMember_bare {s : String} (hs : s ≠ "") (h : ':' ∉ s.toList) : ofMember s = .ok (bare s) := by
  simp [ofMember, parse_bare h, bare, hs]

theorem ofMember_qualified {m s : String} (hm : m ≠ "") (h : ':' ∉ m.toList) (hs : s ≠ "") :
    ofMember (m ++ ":" ++ s) = .ok (qualified m s) := by
  simp [ofMember, parse_qualified h, qualified, hm, hs]

theorem ofMember_render {n : NodeName} (h : n.Readable) : ofMember n.render = .ok n := by
  obtain ⟨module, name⟩ := n
  cases module with
  | none => exact ofMember_bare h.1 h.2
  | some m => exact ofMember_qualified h.2.1 h.2.2 h.1

theorem readable_of_ofMember {member : String} {n : NodeName} (h : ofMember member = .ok n) : n.Readable := by
  unfold ofMember at h
  simp only at h
  split at h
  · cases h
  · rename_i hparts
    rw [not_or] at hparts
    obtain rfl := Except.ok.inj h
    refine ⟨hparts.1, ?_⟩
    cases hcut : Text.cutChars ':' member.toList with
    | none => simpa [parse, Text.cut?, hcut, bare] using Text.cutChars_eq_none.1 hcut
    | some p =>
      obtain ⟨-, hfirst⟩ := Text.cutChars_eq_some hcut
      simp only [parse, Text.cut?, hcut, Option.map_some, qualified] at hparts ⊢
      exact ⟨fun hm => hparts.2 (congrArg some hm), by simpa using hfirst⟩

end YangSubscriptions.NodeName
