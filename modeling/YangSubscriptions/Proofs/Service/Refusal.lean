import YangSubscriptions.Proofs.Service.Ids
import YangSubscriptions.Proofs.Subscription.Sessions

/-!
# Requests that are refused

A request to establish or to modify a subscription that is answered with an error leaves the service
as it was (`refused_without_trace`), whether it fails its checks or its commit. The one exception is the
id that a new subscription had already been given: it is skipped, and nobody gets it later. Taking
a new record back out leaves the index of the sessions as it was only where that index is exact
(`Registry.Exact`), which every turn of the records preserves as long as ids are fresh.
-/

namespace YangSubscriptions

namespace Records

variable {leaks creates : Prop} {r r' : Records}

/-! ## The index of sessions -/

theorem exact_drop (hwf : r.registry.WF) (h : r.registry.Exact) (id : SubscriptionId) : (r.drop id).registry.Exact := by
  cases hfound : r.registry.lookup id with
  | none =>
    rw [drop_of_lookup_none hfound]
    exact h
  | some s =>
    obtain rfl : s.id = id := hwf.keyed id s hfound
    rw [drop_eq hfound]
    exact h.leave hfound

theorem exact_foldl_drop (hwf : r.registry.WF) (h : r.registry.Exact) (ids : List SubscriptionId) :
    (ids.foldl drop r).registry.Exact := by
  induction ids generalizing r with
  | nil => exact h
  | cons id ids ih => exact ih (wf_drop hwf id) (exact_drop hwf h id)

theorem Turn.exact (hturn : Turn leaks creates r r') (hwf : r.registry.WF) (h : r.registry.Exact)
    (hfresh : creates → r.registry.lookup r.registry.nextId = none) : r'.registry.Exact := by
  cases hturn with
  | revised hr =>
    obtain ⟨g, hg, rfl⟩ := hr
    refine h.of_sessions rfl fun id => ?_
    rw [Registry.lookup, Table.get?_map, Option.map_map]
    exact Option.map_congr fun s _ => (hg id s).2.1
  | switched refusing => exact h
  | spent s hcreates hid =>
    have hexact : ((r.registry.enter s).leave s).Exact := by
      rw [Registry.leave_enter h (hid ▸ hfresh hcreates)]
      exact h
    exact hexact.of_sessions rfl fun _ => rfl
  | established s hcreates hid =>
    have hexact : (r.registry.enter s).Exact := h.enter (hid ▸ hfresh hcreates)
    exact hexact.of_sessions rfl fun _ => rfl
  | modified id s f stop found keeps =>
    refine h.of_sessions rfl fun k => ?_
    rw [Registry.lookup_update]
    split
    · rw [Option.map_map]
      exact Option.map_congr fun c _ => (keeps c).2.1
    · rfl
  | removed ids => exact exact_foldl_drop hwf h ids
  | leaked ids => exact exact_foldl_drop hwf h ids
  | rang id => exact h

end Records

namespace Service

open Records (Allotted)

theorem exact_step {s : Service} (h : s.registry.Exact) {a : Action} (hfresh : Fresh s a) :
    (s.step a).registry.Exact := by
  have hrecords : s.records.registry.Exact := h.of_sessions rfl fun _ => rfl
  have hstep := (step_turn hfresh.wf a).exact (Registry.wf_untallied.2 hfresh.wf) hrecords hfresh.absent
  exact hstep.of_sessions rfl fun _ => rfl

theorem exact_run {s : Service} (h : s.registry.Exact) {as : List Action} (hfresh : Throughout Fresh s as) :
    (s.run as).registry.Exact :=
  hfresh.preserves (I := fun s => s.registry.Exact) (fun _ _ hexact hfresh => exact_step hexact hfresh) h

/-! ## Requests -/

/-- A record that was put in and taken out again has used up its id. -/
theorem unestablished_eq {s : Service} (h : s.registry.Exact) {sub : Subscription}
    (hfresh : s.registry.lookup sub.id = none) : s.unestablished sub = s.skipped := by
  unfold unestablished skipped
  rw [Registry.leave_enter h hfresh]

theorem modify_eq_error {s t : Service} {session : Session} {r : ModifyRequest} {e : SubscriptionError}
    (h : s.modify session r = (.error e, t)) : t = s := by
  rcases s.modify_cases session r with ⟨e', he⟩ | ⟨current, resolved, -, -, he⟩
  · rw [he, Prod.mk.injEq] at h
    exact h.2.symm
  · rw [he, Prod.mk.injEq] at h
    cases h.1

theorem establish_eq_error {s t : Service} {session : Session} {r : EstablishRequest} {e : SubscriptionError}
    (h : s.establish session r = (.error e, t)) :
    t = s ∨ (s.datastore.refusing = true ∧
      ∃ sub : Subscription, sub.id = s.registry.nextId ∧ t = s.unestablished sub) := by
  rcases s.establish_cases session r with ⟨e', he⟩ | ⟨request, revision, -, ⟨hrefusing, he⟩ | ⟨-, he⟩⟩
  · rw [he, Prod.mk.injEq] at h
    exact .inl h.2.symm
  · rw [he, Prod.mk.injEq] at h
    exact .inr ⟨hrefusing, .launched s.registry.nextId request, rfl, h.2.symm⟩
  · rw [he, Prod.mk.injEq] at h
    cases h.1

/-- A new subscription has the id that the counter gives. -/
theorem id_of_establish {s t : Service} {session : Session} {r : EstablishRequest} {reply : EstablishReply}
    (h : s.establish session r = (.ok reply, t)) : reply.id = s.registry.nextId := by
  rcases s.establish_cases session r with ⟨e, he⟩ | ⟨request, revision, -, ⟨-, he⟩ | ⟨-, he⟩⟩
  · rw [he, Prod.mk.injEq] at h
    cases h.1
  · rw [he, Prod.mk.injEq] at h
    cases h.1
  · rw [he, Prod.mk.injEq] at h
    cases h.1
    rfl

/-- The counter does not come back to an id that it gave. -/
theorem nextId_run_ne {s : Service} (hwf : s.registry.WF) {n : Nat} (h : s.records.Allotted n) {i : Nat} (hi : i < n)
    {as : List Action} (hcount : n + as.countP Action.establishes < UInt32.size) :
    (s.run as).registry.nextId ≠ firstSubscriptionId + UInt32.ofNat i := by
  obtain ⟨m, hnm, hm, hallotted⟩ := allotted_run hwf h as
  intro heq
  have hnext : (s.run as).registry.nextId = firstSubscriptionId + UInt32.ofNat m := hallotted.next
  rw [hnext] at heq
  have hnat := congrArg UInt32.toNat ((UInt32.add_right_inj _).1 heq)
  rw [UInt32.toNat_ofNat_of_lt' (by omega), UInt32.toNat_ofNat_of_lt' (by omega)] at hnat
  omega

/-- A request to establish or to modify a subscription that is answered with an error leaves the service
as it was: its streams and filters, every record and tally, the index of sessions, the datastore, the
deadlines, the feeds, the listeners and the journal. Only an establish request whose commit is refused has
used up an id, which nobody is registered under and no later request is given, as long as there are ids
that were not given yet. -/
theorem refused_without_trace (now : Instant) (schema : Schema) (configs : List StreamConfig) (as : List Action)
    (session : Session) :
    let s := (start now schema configs).run as
    (∀ (r : ModifyRequest) e t, s.modify session r = (.error e, t) → t = s) ∧
    (∀ (r : EstablishRequest) e t, s.establish session r = (.error e, t) →
      t = s ∨ (s.datastore.refusing = true ∧
        (as.countP Action.establishes < UInt32.size → t = s.skipped ∧ s.registry.lookup s.registry.nextId = none) ∧
        ∀ bs, as.countP Action.establishes + bs.countP Action.establishes + 2 ≤ UInt32.size →
          ∀ later r' reply u, (t.run bs).establish later r' = (.ok reply, u) → reply.id ≠ s.registry.nextId)) := by
  intro s
  refine ⟨fun _ _ _ h => modify_eq_error h, fun r e t h => ?_⟩
  have hwf : s.registry.WF := Reachable.wf ⟨now, schema, configs, as, rfl⟩
  obtain ⟨n, -, hn, hallotted⟩ := allotted_run Registry.WF.empty (allotted_start now schema configs) as
  rcases establish_eq_error h with hsame | ⟨hrefusing, sub, hid, rfl⟩
  · exact .inl hsame
  refine .inr ⟨hrefusing, fun hcount => ?_, fun bs hcount later r' reply u hlater => ?_⟩
  · have hfresh : Throughout Fresh (start now schema configs) as :=
      throughout_fresh Registry.WF.empty (allotted_start now schema configs) (by omega)
    have hexact : s.registry.Exact := exact_run Registry.Exact.empty hfresh
    have habsent : s.registry.lookup s.registry.nextId = none := hallotted.fresh (by omega)
    exact ⟨unestablished_eq hexact (hid ▸ habsent), habsent⟩
  · have hwf' : (s.unestablished sub).registry.WF := by
      have hstep := wf_step hwf (.request session (.establish r))
      rwa [show s.step (.request session (.establish r)) = s.unestablished sub from congrArg Prod.snd h] at hstep
    have hallotted' : (s.unestablished sub).records.Allotted (n + 1) := by
      refine hallotted.enter hid rfl fun id hsome => ?_
      change (((s.registry.enter sub).leave sub).lookup id).isSome = true at hsome
      rw [Registry.lookup_leave] at hsome
      split at hsome
      · cases hsome
      · exact hsome
    have hnext : s.registry.nextId = firstSubscriptionId + UInt32.ofNat n := hallotted.next
    rw [id_of_establish hlater, hnext]
    exact nextId_run_ne hwf' hallotted' (Nat.lt_succ_self n) (by omega)

/-- The first request is refused by the datastore, and the second is given the second id. -/
theorem refused_without_trace_secondId :
    let session : Session := ⟨1, "", none⟩
    let r : EstablishRequest := ⟨some netconfStream, none, none, none, none⟩
    let s := (start ⟨0, 0⟩ .empty []).run [.refuse true]
    let (_, t) := s.establish session r
    t = s.skipped ∧ ∃ reply u, (t.run [.refuse false]).establish session r = (.ok reply, u) ∧
      reply.id ≠ firstSubscriptionId := by
  intro session r s
  have h := (refused_without_trace ⟨0, 0⟩ .empty [] [.refuse true] session).2 r
    (.operationFailed Datastore.refusal.message) (s.establish session r).2 rfl
  have hchanged : (s.establish session r).2 ≠ s := by
    intro heq
    have hnext : (s.establish session r).2.registry.nextId = s.registry.nextId := by rw [heq]
    revert hnext
    decide +kernel
  obtain ⟨-, hskipped, hlater⟩ := h.resolve_left hchanged
  exact ⟨(hskipped (by decide)).1, _, _, rfl, hlater [.refuse false] (by decide) session r _ _ rfl⟩

end Service

end YangSubscriptions
