/-!
# Computations that succeed

What is known of the parts of a computation that can fail, once the whole of it succeeds.
-/

namespace YangSubscriptions

variable {ε α β : Type}

/-- A computation that succeeds went through its first part. -/
theorem exists_ok_of_bind {x : Except ε α} {f : α → Except ε β} {b : β} (h : (x >>= f) = .ok b) :
    ∃ a, x = .ok a ∧ f a = .ok b := by
  cases x with
  | error e => cases h
  | ok a => exact ⟨a, rfl, h⟩

theorem ok_of_bind {x : Except ε α} {f : α → Except ε β} {a : α} {b : β} (hx : x = .ok a) (hf : f a = .ok b) :
    (x >>= f) = .ok b := by
  rw [hx]
  exact hf

/-- Two checks in a row succeed if each of them does. -/
theorem check_bind_eq_ok_iff {x y : Except ε Unit} : (x >>= fun _ => y) = .ok () ↔ x = .ok () ∧ y = .ok () := by
  cases x with
  | error e => simp [bind, Except.bind]
  | ok a => simp [bind, Except.bind]

theorem exists_ok_of_map {x : Except ε α} {f : α → β} {b : β} (h : x.map f = .ok b) : ∃ a, x = .ok a ∧ f a = b := by
  cases x with
  | error e => cases h
  | ok a => exact ⟨a, rfl, Except.ok.inj h⟩

theorem mapM_eq_ok {γ : Type} {read : α → Except ε β} {text : γ → α} {result : γ → β} {xs : List γ}
    (h : ∀ x ∈ xs, read (text x) = .ok (result x)) : (xs.map text).mapM read = .ok (xs.map result) := by
  induction xs with
  | nil => rfl
  | cons x xs ih =>
    rw [List.map_cons, List.mapM_cons, h x List.mem_cons_self, ih fun y hy => h y (List.mem_cons_of_mem x hy)]
    rfl

theorem filterMapM_eq_ok {read : α → Except ε (Option β)} {result : α → Option β} {xs : List α}
    (h : ∀ x ∈ xs, read x = .ok (result x)) : xs.filterMapM read = .ok (xs.filterMap result) := by
  induction xs with
  | nil => rfl
  | cons x xs ih =>
    rw [List.filterMapM_cons, h x List.mem_cons_self, ih fun y hy => h y (List.mem_cons_of_mem x hy),
      List.filterMap_cons]
    cases result x <;> rfl

/-- Each result comes from one of the values. -/
theorem exists_of_mem_mapM {read : α → Except ε β} {as : List α} {bs : List β} (h : as.mapM read = .ok bs) :
    ∀ b ∈ bs, ∃ a ∈ as, read a = .ok b := by
  induction as generalizing bs with
  | nil =>
    cases h
    simp
  | cons a as ih =>
    rw [List.mapM_cons] at h
    obtain ⟨b, hb, h⟩ := exists_ok_of_bind h
    obtain ⟨bs', hbs, h⟩ := exists_ok_of_bind h
    cases h
    intro b' hb'
    rcases List.mem_cons.1 hb' with rfl | hb'
    · exact ⟨a, List.mem_cons_self, hb⟩
    · obtain ⟨a', ha', hread⟩ := ih hbs b' hb'
      exact ⟨a', List.mem_cons_of_mem a ha', hread⟩

end YangSubscriptions
