import YangSubscriptions.Proofs.Subscription.Registry

/-!
# The index of sessions

Of each session the registry keeps the set of its subscriptions, and drops the set with the last of
them. So the index holds what is registered and nothing else (`Exact`), provided no record is put in
over another one. In an exact registry a record that is put in and taken out again leaves no trace, not
even an empty set (`leave_enter`).
-/

namespace YangSubscriptions.Registry

variable {r : Registry}

/-- The set of a session, empty if none is kept. -/
def owned (r : Registry) (session : SessionId) : Table SubscriptionId Unit := (r.sessions.get? session).getD .empty

theorem owned_enter (r : Registry) (s : Subscription) (session : SessionId) :
    (r.enter s).owned session =
      if s.session.id = session then (r.owned session).insert s.id () else r.owned session := by
  unfold owned enter
  rw [Table.get?_insert]
  split
  · rename_i hsession
    rw [Option.getD_some, hsession]
  · rfl

theorem owned_leave (r : Registry) (s : Subscription) (session : SessionId) :
    (r.leave s).owned session =
      if s.session.id = session then (r.owned session).erase s.id else r.owned session := by
  split
  · rename_i hsession
    rw [← hsession]
    exact sessions_leave r s
  · rename_i hsession
    unfold owned
    rw [sessions_leave_of_ne r s hsession]

/-- The set of a session holds nothing that is not registered for it, and it is not kept empty. -/
structure Exact (r : Registry) : Prop where
  registered : ∀ session id, (r.owned session).contains id → ∃ s, r.lookup id = some s ∧ s.session.id = session
  nonempty : ∀ session, r.sessions.get? session ≠ some .empty

/-- Where no set is empty, the sets make the index. -/
theorem sessions_eq {r' : Registry} (h : ∀ session, r.sessions.get? session ≠ some .empty)
    (h' : ∀ session, r'.sessions.get? session ≠ some .empty) (howned : ∀ session, r.owned session = r'.owned session) :
    r.sessions = r'.sessions := by
  refine Table.ext fun session => ?_
  have heq := howned session
  unfold owned at heq
  cases hs : r.sessions.get? session with
  | none =>
    cases hs' : r'.sessions.get? session with
    | none => rfl
    | some owned' =>
      rw [hs, hs', Option.getD_none, Option.getD_some] at heq
      exact absurd (heq ▸ hs') (h' session)
  | some owned =>
    cases hs' : r'.sessions.get? session with
    | none =>
      rw [hs, hs', Option.getD_none, Option.getD_some] at heq
      exact absurd (heq ▸ hs) (h session)
    | some owned' =>
      rw [hs, hs', Option.getD_some, Option.getD_some] at heq
      rw [heq]

theorem nonempty_enter (h : ∀ session, r.sessions.get? session ≠ some .empty) (s : Subscription) (session : SessionId) :
    (r.enter s).sessions.get? session ≠ some .empty := by
  show (r.sessions.insert s.session.id ((r.owned s.session.id).insert s.id ())).get? session ≠ _
  rw [Table.get?_insert]
  split
  · intro hempty
    have hkept := congrArg (fun t => t.get? s.id) (Option.some.inj hempty)
    simp only [Table.get?_insert, if_true, Table.get?_empty] at hkept
    cases hkept
  · exact h session

theorem nonempty_leave (h : ∀ session, r.sessions.get? session ≠ some .empty) (s : Subscription) (session : SessionId) :
    (r.leave s).sessions.get? session ≠ some .empty := by
  by_cases hsession : s.session.id = session
  · subst hsession
    unfold leave
    simp only
    split
    · simp only [Table.get?_erase, if_true, ne_eq, reduceCtorEq, not_false_eq_true]
    · rename_i hsize
      rw [Table.get?_insert, if_pos rfl]
      intro hempty
      rw [Option.some.inj hempty] at hsize
      exact hsize rfl
  · rw [sessions_leave_of_ne r s hsession]
    exact h session

namespace Exact

theorem empty : Registry.empty.Exact where
  registered _ _ h := by cases h
  nonempty _ h := by cases h

theorem enter (h : r.Exact) {s : Subscription} (hfresh : r.lookup s.id = none) : (r.enter s).Exact := by
  refine ⟨fun session id hid => ?_, nonempty_enter h.nonempty s⟩
  rw [lookup_enter]
  split
  · rename_i hsame
    subst hsame
    rw [owned_enter] at hid
    split at hid
    · rename_i hsession
      exact ⟨s, rfl, hsession⟩
    · obtain ⟨t, ht, -⟩ := h.registered session s.id hid
      rw [hfresh] at ht
      cases ht
  · rename_i hother
    refine h.registered session id ?_
    rw [owned_enter] at hid
    split at hid
    · rwa [Table.contains, Table.get?_insert, if_neg hother] at hid
    · exact hid

theorem leave (h : r.Exact) {s : Subscription} (hfound : r.lookup s.id = some s) : (r.leave s).Exact := by
  refine ⟨fun session id hid => ?_, nonempty_leave h.nonempty s⟩
  rw [owned_leave] at hid
  by_cases hsession : s.session.id = session
  · rw [if_pos hsession, Table.contains, Table.get?_erase] at hid
    split at hid
    · cases hid
    · rename_i hother
      rw [lookup_leave, if_neg hother]
      exact h.registered session id hid
  · rw [if_neg hsession] at hid
    obtain ⟨t, ht, htsession⟩ := h.registered session id hid
    have hother : s.id ≠ id := by
      intro hsame
      rw [← hsame, hfound] at ht
      exact hsession (Option.some.inj ht ▸ htsession)
    exact ⟨t, by rw [lookup_leave, if_neg hother, ht], htsession⟩

/-- Another registry with the same index, and with records of the same sessions. -/
theorem of_sessions (h : r.Exact) {r' : Registry} (hsessions : r'.sessions = r.sessions)
    (hlookup : ∀ id, (r'.lookup id).map (·.session) = (r.lookup id).map (·.session)) : r'.Exact := by
  refine ⟨fun session id hid => ?_, fun session => hsessions ▸ h.nonempty session⟩
  have howned : r'.owned session = r.owned session := by
    unfold owned
    rw [hsessions]
  obtain ⟨s, hs, hsession⟩ := h.registered session id (howned ▸ hid)
  have hmap := hlookup id
  rw [hs, Option.map_some, Option.map_eq_some_iff] at hmap
  obtain ⟨t, ht, htsession⟩ := hmap
  exact ⟨t, ht, by rw [htsession, hsession]⟩

end Exact

/-- A record that is put in under a new id and taken out again. -/
theorem leave_enter (h : r.Exact) {s : Subscription} (hfresh : r.lookup s.id = none) : (r.enter s).leave s = r := by
  have hsubscriptions : ((r.enter s).leave s).subscriptions = r.subscriptions := Table.erase_insert s hfresh
  have hsessions : ((r.enter s).leave s).sessions = r.sessions := by
    refine sessions_eq (nonempty_leave (nonempty_enter h.nonempty s) s) h.nonempty fun session => ?_
    rw [owned_leave, owned_enter]
    split
    · have habsent : (r.owned session).get? s.id = none := by
        rw [← Option.not_isSome_iff_eq_none]
        intro hid
        obtain ⟨t, ht, -⟩ := h.registered session s.id hid
        rw [hfresh] at ht
        cases ht
      exact Table.erase_insert () habsent
    · rfl
  show Registry.mk r.nextId ((r.enter s).leave s).subscriptions ((r.enter s).leave s).sessions r.tallies = r
  rw [hsubscriptions, hsessions]

end YangSubscriptions.Registry
