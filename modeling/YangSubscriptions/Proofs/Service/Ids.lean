import YangSubscriptions.Proofs.Service.Turn

/-!
# Well-formed registries and fresh ids

What a turn keeps of a registry: it stays well-formed (`Turn.wf`), and every id that is registered was
given by the counter (`Allotted`). A run that gives no more ids than there are therefore takes every new
id while nobody is registered under it (`throughout_fresh`).
-/

namespace YangSubscriptions

namespace Records

variable {leaks creates : Prop} {r r' : Records}

/-! ## Records that are taken out -/

theorem lookup_drop (h : r.registry.WF) (id k : SubscriptionId) :
    (r.drop id).registry.lookup k = if id = k then none else r.registry.lookup k := by
  cases hs : r.registry.lookup id with
  | some s =>
    rw [drop_eq hs]
    show (r.registry.leave s).lookup k = _
    rw [Registry.lookup_leave, h.keyed id s hs]
  | none =>
    rw [drop_of_lookup_none hs]
    split
    · rename_i hk
      rw [← hk, hs]
    · rfl

theorem wf_drop (h : r.registry.WF) (id : SubscriptionId) : (r.drop id).registry.WF := by
  unfold drop
  split
  · rename_i s _
    exact h.leave s
  · exact h

theorem wf_foldl_drop (h : r.registry.WF) (ids : List SubscriptionId) : (ids.foldl drop r).registry.WF := by
  induction ids generalizing r with
  | nil => exact h
  | cons id ids ih => exact ih (wf_drop h id)

theorem lookup_foldl_drop (h : r.registry.WF) (ids : List SubscriptionId) (k : SubscriptionId) :
    (ids.foldl drop r).registry.lookup k = if k ∈ ids then none else r.registry.lookup k := by
  induction ids generalizing r with
  | nil => simp
  | cons id ids ih =>
    rw [List.foldl_cons, ih (wf_drop h id), lookup_drop h]
    by_cases hk : k ∈ ids
    · simp [hk]
    · by_cases hid : id = k
      · simp [hid]
      · simp [hk, hid, Ne.symm hid]

theorem nextId_foldl_drop (ids : List SubscriptionId) (r : Records) :
    (ids.foldl drop r).registry.nextId = r.registry.nextId := by
  induction ids generalizing r with
  | nil => rfl
  | cons id ids ih =>
    rw [List.foldl_cons, ih]
    unfold drop
    split <;> rfl

/-! ## Well-formed registries -/

/-- A turn keeps the registry well formed. -/
theorem Turn.wf (hturn : Turn leaks creates r r') (h : r.registry.WF) : r'.registry.WF := by
  cases hturn with
  | revised hr =>
    obtain ⟨g, hg, rfl⟩ := hr
    exact h.map fun id s => ⟨Subscription.id_eq_of_terms (hg id s).1, (hg id s).2⟩
  | switched refusing => exact h
  | spent s _ _ sound =>
    have h := (h.enter sound).leave s
    exact ⟨h.keyed, h.indexed, h.sound⟩
  | established s _ _ sound =>
    have h := h.enter sound
    exact ⟨h.keyed, h.indexed, h.sound⟩
  | modified id _ _ _ _ keeps => exact h.update id keeps
  | removed ids => exact wf_foldl_drop h ids
  | leaked ids => exact wf_foldl_drop h ids
  | rang id => exact h

/-! ## Ids -/

/-- Is the id one of the first `n` that the counter gives? -/
def Given (n : Nat) (id : SubscriptionId) : Prop := ∃ i < n, id = firstSubscriptionId + UInt32.ofNat i

theorem Given.mono {n m : Nat} {id : SubscriptionId} (h : Given n id) (hnm : n ≤ m) : Given m id := by
  obtain ⟨i, hi, he⟩ := h
  exact ⟨i, Nat.lt_of_lt_of_le hi hnm, he⟩

/-- The next id is not among those that were given, until they come round. -/
theorem not_given {n : Nat} (hn : n < UInt32.size) : ¬ Given n (firstSubscriptionId + UInt32.ofNat n) := by
  rintro ⟨i, hi, he⟩
  have hnat := congrArg UInt32.toNat ((UInt32.add_right_inj _).1 he)
  rw [UInt32.toNat_ofNat_of_lt' hn, UInt32.toNat_ofNat_of_lt' (Nat.lt_trans hi hn)] at hnat
  omega

/-- The counter gave `n` ids, and every id that is registered is one of them. -/
structure Allotted (n : Nat) (r : Records) : Prop where
  next : r.registry.nextId = firstSubscriptionId + UInt32.ofNat n
  given : ∀ id s, r.registry.lookup id = some s → Given n id

/-- So no record has it. -/
theorem Allotted.fresh {n : Nat} (h : r.Allotted n) (hn : n < UInt32.size) :
    r.registry.lookup r.registry.nextId = none := by
  cases hs : r.registry.lookup r.registry.nextId with
  | none => rfl
  | some s =>
    have hgiven := h.given _ s hs
    rw [h.next] at hgiven
    exact absurd hgiven (not_given hn)

/-- A registry that keeps its counter and registers no new id. -/
theorem Allotted.of_lookup {n : Nat} (h : r.Allotted n) (hnext : r'.registry.nextId = r.registry.nextId)
    (hlookup : ∀ id, (r'.registry.lookup id).isSome → (r.registry.lookup id).isSome) : r'.Allotted n := by
  refine ⟨hnext.trans h.next, fun id s hs => ?_⟩
  obtain ⟨t, ht⟩ := Option.isSome_iff_exists.1 (hlookup id (Option.isSome_iff_exists.2 ⟨s, hs⟩))
  exact h.given id t ht

/-- A registry that takes the next id and registers nothing else that is new. -/
theorem Allotted.enter {n : Nat} (h : r.Allotted n) {s : Subscription} (hid : s.id = r.registry.nextId)
    (hnext : r'.registry.nextId = r.registry.nextId + 1)
    (hlookup : ∀ id, (r'.registry.lookup id).isSome → ((r.registry.enter s).lookup id).isSome) :
    r'.Allotted (n + 1) := by
  refine ⟨?_, fun id t ht => ?_⟩
  · rw [hnext, h.next, UInt32.ofNat_add, UInt32.add_assoc]
    rfl
  · have hsome := hlookup id (Option.isSome_iff_exists.2 ⟨t, ht⟩)
    rw [Registry.lookup_enter] at hsome
    split at hsome
    · rename_i hs
      exact ⟨n, Nat.lt_succ_self n, by rw [← hs, hid, h.next]⟩
    · obtain ⟨u, hu⟩ := Option.isSome_iff_exists.1 hsome
      exact (h.given id u hu).mono (Nat.le_succ n)

theorem isSome_lookup_of_foldl_drop (hwf : r.registry.WF) {ids : List SubscriptionId} {k : SubscriptionId}
    (h : ((ids.foldl drop r).registry.lookup k).isSome) : (r.registry.lookup k).isSome := by
  rw [lookup_foldl_drop hwf] at h
  split at h
  · cases h
  · exact h

/-- A turn registers nobody who was not, or takes the next id and registers that. -/
theorem Turn.registers (hturn : Turn leaks creates r r') (hwf : r.registry.WF) :
    (r'.registry.nextId = r.registry.nextId ∧
      ∀ id, (r'.registry.lookup id).isSome → (r.registry.lookup id).isSome) ∨
    (creates ∧ r'.registry.nextId = r.registry.nextId + 1 ∧ ∃ s : Subscription, s.id = r.registry.nextId ∧
      ∀ id, (r'.registry.lookup id).isSome → ((r.registry.enter s).lookup id).isSome) := by
  cases hturn with
  | revised hr =>
    obtain ⟨g, hg, rfl⟩ := hr
    refine .inl ⟨rfl, fun id hs => ?_⟩
    rw [Registry.lookup, Table.get?_map, Option.isSome_map] at hs
    exact hs
  | switched refusing => exact .inl ⟨rfl, fun id hs => hs⟩
  | spent s hcreates hid =>
    refine .inr ⟨hcreates, rfl, s, hid, fun id hs => ?_⟩
    change (((r.registry.enter s).leave s).lookup id).isSome = true at hs
    rw [Registry.lookup_leave] at hs
    split at hs
    · cases hs
    · exact hs
  | established s hcreates hid => exact .inr ⟨hcreates, rfl, s, hid, fun id hs => hs⟩
  | modified id s f =>
    refine .inl ⟨rfl, fun k hs => ?_⟩
    change ((r.registry.update id f).lookup k).isSome = true at hs
    rw [Registry.lookup_update] at hs
    split at hs
    · rwa [Option.isSome_map] at hs
    · exact hs
  | removed ids => exact .inl ⟨nextId_foldl_drop ids r, fun _ => isSome_lookup_of_foldl_drop hwf⟩
  | leaked ids => exact .inl ⟨nextId_foldl_drop ids r, fun _ => isSome_lookup_of_foldl_drop hwf⟩
  | rang id => exact .inl ⟨rfl, fun k hs => hs⟩

/-- A turn gives at most one id. -/
theorem Turn.allotted (hturn : Turn leaks creates r r') (hwf : r.registry.WF) {n : Nat} (h : r.Allotted n) :
    r'.Allotted n ∨ (creates ∧ r'.Allotted (n + 1)) := by
  rcases hturn.registers hwf with ⟨hnext, hlookup⟩ | ⟨hcreates, hnext, s, hid, hlookup⟩
  · exact .inl (h.of_lookup hnext hlookup)
  · exact .inr ⟨hcreates, h.enter hid hnext hlookup⟩

end Records

/-! ## Runs -/

namespace Service

open Records (Allotted)

/-- No step breaks the registry. -/
theorem wf_step {s : Service} (hwf : s.registry.WF) (a : Action) : (s.step a).registry.WF :=
  Registry.wf_untallied.1 ((step_turn hwf a).wf (Registry.wf_untallied.2 hwf))

theorem wf_drop {s : Service} (hwf : s.registry.WF) (id : SubscriptionId) : (s.drop id).registry.WF := by
  have hrecords := Records.wf_drop (r := s.records) (Registry.wf_untallied.2 hwf) id
  rw [← records_drop] at hrecords
  exact Registry.wf_untallied.1 hrecords

theorem lookup_drop {s : Service} (hwf : s.registry.WF) (id k : SubscriptionId) :
    (s.drop id).registry.lookup k = if id = k then none else s.registry.lookup k := by
  have hrecords := Records.lookup_drop (r := s.records) (Registry.wf_untallied.2 hwf) id k
  rwa [← records_drop] at hrecords

theorem lookup_closeSession {s : Service} (hwf : s.registry.WF) (session : SessionId) (id : SubscriptionId) :
    (s.closeSession session).2.registry.lookup id =
      if id ∈ s.registry.ofSession session then none else s.registry.lookup id := by
  have hrecords := Records.lookup_foldl_drop (r := s.records) (Registry.wf_untallied.2 hwf)
    (s.registry.ofSession session) id
  rwa [← records_foldl_drop] at hrecords

/-- It is well formed in every state that a service can reach. -/
theorem Reachable.wf {s : Service} (h : s.Reachable) : s.registry.WF :=
  h.preserves (I := fun s => s.registry.WF) (fun _ _ _ => Registry.WF.empty) fun _ a hwf => wf_step hwf a

theorem allotted_start (now : Instant) (schema : Schema) (configs : List StreamConfig) :
    (start now schema configs).records.Allotted 0 := ⟨rfl, fun _ _ h => by cases h⟩

/-- A step gives one id at most, and only for an establish request. -/
theorem allotted_step {s : Service} (hwf : s.registry.WF) {n : Nat} (h : s.records.Allotted n) (a : Action) :
    ∃ m, n ≤ m ∧ (m ≤ n + if a.establishes then 1 else 0) ∧ (s.step a).records.Allotted m := by
  rcases (step_turn hwf a).allotted (Registry.wf_untallied.2 hwf) h with h | ⟨hcreates, h⟩
  · exact ⟨n, Nat.le_refl n, Nat.le_add_right .., h⟩
  · exact ⟨n + 1, Nat.le_succ n, by simp [hcreates], h⟩

/-- A run gives at most one id for each request for a subscription. -/
theorem allotted_run {s : Service} (hwf : s.registry.WF) {n : Nat} (h : s.records.Allotted n) (as : List Action) :
    ∃ m, n ≤ m ∧ m ≤ n + as.countP Action.establishes ∧ (s.run as).records.Allotted m := by
  induction as generalizing s n with
  | nil => exact ⟨n, Nat.le_refl n, Nat.le_refl n, h⟩
  | cons a as ih =>
    obtain ⟨k, hnk, hk, h⟩ := allotted_step hwf h a
    obtain ⟨m, hkm, hm, h⟩ := ih (wf_step hwf a) h
    rw [List.countP_cons]
    exact ⟨m, by omega, by omega, h⟩

/-- Is the registry well-formed, and the next id nobody's if it is taken? -/
structure Fresh (s : Service) (a : Action) : Prop where
  wf : s.registry.WF
  absent : a.establishes = true → s.registry.lookup s.registry.nextId = none

/-- With no more requests than ids, every id that is given is new. -/
theorem throughout_fresh {s : Service} (hwf : s.registry.WF) {n : Nat} (h : s.records.Allotted n) {as : List Action}
    (hcount : n + as.countP Action.establishes ≤ UInt32.size) : Throughout Fresh s as := by
  induction as generalizing s n with
  | nil => trivial
  | cons a as ih =>
    rw [List.countP_cons] at hcount
    obtain ⟨k, -, hk, hallotted⟩ := allotted_step hwf h a
    refine ⟨⟨hwf, fun hestablishes => ?_⟩, ih (wf_step hwf a) hallotted (by omega)⟩
    rw [if_pos hestablishes] at hcount
    exact h.fresh (by omega)

end Service

end YangSubscriptions
