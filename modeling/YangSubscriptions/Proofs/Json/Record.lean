import YangSubscriptions.Json.Record
import YangSubscriptions.Proofs.Json.Text

/-!
# Records are read back as they are written

Whether a field is read depends on the value of its name alone (`required_eq_ok_iff`, `defaulted_eq_ok_iff`), so a record
is decoded from what it is written as, as soon as each of its fields is (`record_object`). What is decoded is written no
deeper than it was read (`Shallow`), for its fields were parts of what was read (`exists_rows`).
-/

namespace YangSubscriptions.Json

/-! ## Fields by name -/

/-- The value of a field, if it is there. -/
def Rows.value? (rows : Rows) (name : String) : Option Json := (Fields.row? name rows).map (·.2)

namespace Fields

variable {α β : Type} {rows : Rows} {name : String} {decode : Decoder α}

/-- Both parts are read, from the same fields. -/
@[simp] theorem also_eq_ok_iff {f : Fields (α → β)} {x : Fields α} {b : β} :
    f.also x rows = .ok b ↔ ∃ g a, f rows = .ok g ∧ x rows = .ok a ∧ g a = b := by
  unfold also
  cases f rows with
  | error e => cases x rows <;> simp
  | ok g => cases x rows <;> simp

@[simp] theorem pure_eq_ok_iff {a b : α} : pure a rows = .ok b ↔ a = b := by
  simp [pure]

/-- An optional field is absent, or it is read. -/
theorem optional_eq_ok_iff {o : Option α} :
    optional name decode rows = .ok o ↔
      (rows.value? name = none ∧ o = none) ∨ ∃ v a, rows.value? name = some v ∧ decode v = .ok a ∧ o = some a := by
  unfold optional Rows.value?
  cases row? name rows with
  | none => simp [eq_comm]
  | some row =>
    obtain ⟨i, v⟩ := row
    cases hdecode : decode v <;> simp [hdecode, eq_comm]

@[simp] theorem defaulted_eq_ok_iff {a default : α} :
    defaulted name decode default rows = .ok a ↔
      (rows.value? name = none ∧ a = default) ∨ ∃ v, rows.value? name = some v ∧ decode v = .ok a := by
  unfold defaulted
  constructor
  · intro h
    obtain ⟨o, ho, heq⟩ := exists_ok_of_map h
    rcases optional_eq_ok_iff.1 ho with ⟨hnone, rfl⟩ | ⟨v, b, hv, hb, rfl⟩
    · exact .inl ⟨hnone, heq.symm⟩
    · exact .inr ⟨v, hv, heq ▸ hb⟩
  · rintro (⟨hnone, rfl⟩ | ⟨v, hv, ha⟩)
    · rw [optional_eq_ok_iff.2 (.inl ⟨hnone, rfl⟩)]
      rfl
    · rw [optional_eq_ok_iff.2 (.inr ⟨v, a, hv, ha, rfl⟩)]
      rfl

/-- A required field is there and is read. -/
@[simp] theorem required_eq_ok_iff {a : α} :
    required name decode rows = .ok a ↔ ∃ v, rows.value? name = some v ∧ decode v = .ok a := by
  unfold required
  constructor
  · intro h
    cases ho : optional name decode rows with
    | error e =>
      rw [ho] at h
      cases h
    | ok o =>
      rw [ho] at h
      cases o with
      | none => cases h
      | some b =>
        cases h
        rcases optional_eq_ok_iff.1 ho with ⟨-, heq⟩ | ⟨v, b, hv, hb, heq⟩
        · cases heq
        · cases heq
          exact ⟨v, hv, hb⟩
  · rintro ⟨v, hv, ha⟩
    rw [optional_eq_ok_iff.2 (.inr ⟨v, a, hv, ha, rfl⟩)]

@[simp] theorem nullable_eq_ok_iff {o : Option α} :
    nullable name decode rows = .ok o ↔
      (rows.value? name = none ∧ rows.positional = false ∧ o = none) ∨
        ∃ v, rows.value? name = some v ∧ Decoder.option decode v = .ok o := by
  unfold nullable
  constructor
  · intro h
    cases ho : optional name (Decoder.option decode) rows with
    | error e =>
      rw [ho] at h
      cases h
    | ok found =>
      rw [ho] at h
      rcases optional_eq_ok_iff.1 ho with ⟨hnone, rfl⟩ | ⟨v, b, hv, hb, rfl⟩
      · simp only at h
        split at h
        · cases h
        · rename_i hpositional
          cases h
          exact .inl ⟨hnone, by simpa using hpositional, rfl⟩
      · cases h
        exact .inr ⟨v, hv, hb⟩
  · rintro (⟨hnone, hpositional, rfl⟩ | ⟨v, hv, ho⟩)
    · rw [optional_eq_ok_iff.2 (.inl ⟨hnone, rfl⟩), hpositional]
      rfl
    · rw [optional_eq_ok_iff.2 (.inr ⟨v, o, hv, ho, rfl⟩)]

end Fields

/-! ## Records -/

/-- The fields of an object. -/
def Rows.ofMembers (title : String) (fields : List String) (members : List (String × Json)) : Rows :=
  ⟨title, fields, members, false⟩

theorem find?_zipIdx (name : String) : ∀ (ms : List (String × Json)) (k : Nat),
    ((ms.zipIdx k).find? (·.1.1 = name)).map (·.1) = ms.find? (·.1 = name)
  | [], _ => rfl
  | m :: ms, k => by
    rw [List.zipIdx_cons, List.find?_cons, List.find?_cons]
    cases h : decide (m.1 = name) with
    | true => rfl
    | false => exact find?_zipIdx name ms (k + 1)

theorem Rows.value?_eq (rows : Rows) (name : String) :
    rows.value? name = (rows.rows.find? (·.1 = name)).map (·.2) := by
  rw [value?, Fields.row?, Option.map_map, ← find?_zipIdx name rows.rows 0, Option.map_map]
  rfl

theorem Rows.exists_of_value? {rows : Rows} {name : String} {v : Json} (h : rows.value? name = some v) :
    ∃ m ∈ rows.rows, m.2 = v := by
  rw [value?_eq] at h
  obtain ⟨m, hm, hv⟩ := Option.map_eq_some_iff.1 h
  exact ⟨m, List.mem_of_find?_eq_some hm, hv⟩

section
variable {title : String} {fields : List String} {name : String}

@[simp] theorem Rows.positional_ofMembers {members : List (String × Json)} :
    (Rows.ofMembers title fields members).positional = false := rfl

@[simp] theorem Rows.value?_nil : (Rows.ofMembers title fields []).value? name = none := rfl

/-- Of the members the first with the name counts. -/
@[simp] theorem Rows.value?_cons {n : String} {v : Json} {members : List (String × Json)} :
    (Rows.ofMembers title fields ((n, v) :: members)).value? name =
      if n = name then some v else (Rows.ofMembers title fields members).value? name := by
  rw [value?_eq, value?_eq, ofMembers, ofMembers, List.find?_cons]
  split
  · rename_i h
    rw [if_pos (by simpa using h), Option.map_some]
  · rename_i h
    rw [if_neg (by simpa using h)]

end

section
variable {α : Type} {title : String} {fields : List String} {read : Fields α} {a : α}

/-- A record is read from an object by the names of its members. -/
theorem record_object {members : List (String × Json)} (h : read (Rows.ofMembers title fields members) = .ok a) :
    record title fields read (.object members) = .ok a := by
  rw [record, ← Rows.ofMembers, h]
  rfl

/-- A record is read from fields whose values are parts of the value. -/
theorem exists_rows {j : Json} (h : record title fields read j = .ok a) :
    ∃ rows, read rows = .ok a ∧ ∀ depth, j.Within depth →
      1 < depth ∧ ∀ name v, rows.value? name = some v → v.Within (depth - 1) := by
  have hmap : ∀ rows, (read rows).mapError (·.2) = .ok a → read rows = .ok a := by
    intro rows h
    cases hread : read rows with
    | error e =>
      rw [hread] at h
      cases h
    | ok b =>
      rw [hread] at h
      cases h
      rfl
  unfold record at h
  split at h
  · rename_i members
    refine ⟨_, hmap _ h, fun depth hdepth => ⟨hdepth.1, fun name v hv => ?_⟩⟩
    obtain ⟨m, hm, rfl⟩ := Rows.exists_of_value? hv
    exact membersWithin_iff.1 hdepth.2 m hm
  · rename_i items
    obtain ⟨b, hb, h⟩ := exists_ok_of_bind h
    split at h
    · cases h
    · cases h
      refine ⟨_, hmap _ hb, fun depth hdepth => ⟨hdepth.1, fun name v hv => ?_⟩⟩
      obtain ⟨m, hm, rfl⟩ := Rows.exists_of_value? hv
      exact itemsWithin_iff.1 hdepth.2 m.2 (List.of_mem_zip hm).2
  · cases h

end

/-! ## Decoders and writers -/

@[simp] theorem optionalMember_none (name : String) : optionalMember name none = [] := rfl

@[simp] theorem optionalMember_some (name : String) (v : Json) : optionalMember name (some v) = [(name, v)] := rfl

theorem Decoder.option_of_ne_null {α : Type} {decode : Decoder α} {v : Json} {a : α} (hv : v ≠ .null)
    (h : decode v = .ok a) : Decoder.option decode v = .ok (some a) := by
  unfold option
  split
  · exact absurd rfl hv
  · rw [h]
    rfl

theorem Decoder.eq_ok_of_option {α : Type} {decode : Decoder α} {v : Json} {a : α}
    (h : Decoder.option decode v = .ok (some a)) : decode v = .ok a := by
  unfold option at h
  split at h
  · cases h
  · obtain ⟨b, hb, heq⟩ := exists_ok_of_map h
    cases heq
    exact hb

/-- What reads items back reads lists of them back. -/
theorem Decoder.list_map {α : Type} {decode : Decoder α} {write : α → Json} (h : ∀ a, decode (write a) = .ok a)
    (as : List α) : Decoder.list decode (.array (as.map write)) = .ok as := by
  have hmap : (as.map write).mapM decode = .ok (as.map fun a => a) := mapM_eq_ok fun a _ => h a
  rwa [List.map_id'] at hmap

theorem legible_list {α : Type} {write : α → Json} (h : ∀ a, (write a).Legible) (as : List α) :
    (Json.array (as.map write)).Legible :=
  itemsLegible_iff.2 fun v hv => by
    obtain ⟨a, -, rfl⟩ := List.mem_map.1 hv
    exact h a

/-- What is decoded is written no deeper than it was read, and with no larger numbers. -/
def Shallow {α : Type} (decode : Decoder α) (write : α → Json) : Prop :=
  ∀ ⦃j a depth⦄, decode j = .ok a → j.Within depth → (write a).Within depth

theorem shallow_natural (expected : String) : Shallow (Decoder.natural expected) fun n => .int n := by
  intro j n depth h hj
  unfold Decoder.natural at h
  split at h
  · split at h
    · rename_i n' hn
      cases h
      have hint : int n'.toNat = .number (.int n') := congrArg (number ∘ .int) (Int.toNat_of_nonneg hn)
      simpa only [hint] using hj
    · cases h
  · cases h

namespace Shallow

variable {α : Type} {depth : Nat} {decode : Decoder α} {write : α → Json} {name : String} {rows : Rows} {a : α}

/-- A list of shallow values is shallow. -/
theorem list (h : Shallow decode write) : Shallow (Decoder.list decode) fun as => .array (as.map write) := by
  intro j as depth has hj
  unfold Decoder.list at has
  split at has
  · refine ⟨hj.1, itemsWithin_iff.2 fun w hw => ?_⟩
    obtain ⟨a, ha, rfl⟩ := List.mem_map.1 hw
    obtain ⟨v, hv, hread⟩ := exists_of_mem_mapM has a ha
    exact h hread (itemsWithin_iff.1 hj.2 v hv)
  · cases has

theorem defaulted (h : Shallow decode write) {default : α} (hdefault : (write default).Within depth)
    (hrows : ∀ name v, rows.value? name = some v → v.Within depth)
    (ha : Fields.defaulted name decode default rows = .ok a) : (write a).Within depth := by
  rcases Fields.defaulted_eq_ok_iff.1 ha with ⟨-, rfl⟩ | ⟨v, hv, hread⟩
  · exact hdefault
  · exact h hread (hrows name v hv)

end Shallow

end YangSubscriptions.Json
