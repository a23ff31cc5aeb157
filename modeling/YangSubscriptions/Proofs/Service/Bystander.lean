import YangSubscriptions.Proofs.Service.Isolation
import YangSubscriptions.Proofs.Service.Revalidation
import YangSubscriptions.Proofs.Service.Share

/-!
# Operations and bystanders

What each operation of a service means for one subscription. An operation on the subscription itself finds the same
and does the same in services that are alike for it; one on another subscription leaves all that is held for it as
it was, whatever comes of the operation.
-/

namespace YangSubscriptions

namespace Service

open Dispatcher (Roster)

variable {A k : SubscriptionId} {own own' : List ListenerId} {s t : Service}

/-! ## Attaching -/

theorem Alike.attach (h : Alike A own own' s t) (capacity : Nat) (replace : Bool) :
    Alike A (own ++ [s.dispatcher.listeners.size]) (own' ++ [t.dispatcher.listeners.size])
      (s.attach A capacity replace).2.2 (t.attach A capacity replace).2.2 := by
  rw [attach_eq_ite h.left.sound, attach_eq_ite h.right.sound, h.running, h.hasOpenListener]
  split
  · rename_i hseated
    have hrunning : s.dispatcher.running = true := h.running.trans hseated.1
    refine (h.rewire (h.left.seat hrunning capacity) (h.right.seat hseated.1 capacity) ?_ h.holding).replay
    rw [Dispatcher.desk_append, Dispatcher.desk_append, h.left.desk_seat, h.right.desk_seat, h.left.place_seat,
      h.right.place_seat, h.desk]
  · refine h.rewire (h.left.turnAway capacity) (h.right.turnAway capacity) ?_ h.holding
    rw [Dispatcher.desk_append, Dispatcher.desk_append, h.left.desk_turnAway, h.right.desk_turnAway,
      h.left.place_turnAway, h.right.place_turnAway, h.desk]

theorem alike_attach (h : Roster A own s.dispatcher) (hk : k ≠ A) (capacity : Nat) (replace : Bool) :
    Alike A own own s (s.attach k capacity replace).2.2 := by
  rcases s.attach_cases k capacity replace with he | ⟨hrunning, he⟩
  · rw [he]
    exact (Alike.refl h).rewire h (h.turnAway_of_ne capacity) (h.desk_turnAway capacity).symm rfl
  · have hseated : Alike A own own s { s with dispatcher := s.dispatcher.seat k capacity } :=
      (Alike.refl h).rewire h (h.seat_of_ne hk hrunning capacity) (h.desk_seat_of_ne hk capacity).symm rfl
    rw [he]
    exact hseated.trans (alike_replay hseated.right hk)

theorem listen_eq (s : Service) (k : SubscriptionId) (capacity : Nat) :
    (s.listen k capacity).2 =
      if (s.registry.lookup k).any (·.state.isLive) then (s.attach k capacity false).2.2 else s := by
  show s.step (.listen k capacity) = _
  rw [s.step_of_carries rfl (by simp), moveOf?]
  split <;> rfl

/-! ## Changes of state -/

/-- A step of the lifecycle succeeds in both or fails in both. -/
theorem Alike.transition (h : Alike A own own' s t) (target : SubscriptionState) (reason : Option SuspensionReason) :
    (∃ e, s.registry.transition A target reason = .error e ∧ t.registry.transition A target reason = .error e) ∨
      ∃ previous registry registry', s.registry.transition A target reason = .ok (previous, registry) ∧
        t.registry.transition A target reason = .ok (previous, registry') ∧
        registry.holding A = registry'.holding A := by
  unfold Registry.transition
  rw [h.lookup]
  cases t.registry.lookup A with
  | none => exact .inl ⟨_, rfl, rfl⟩
  | some sub =>
    simp only
    split
    · refine .inr ⟨_, _, _, rfl, rfl, ?_⟩
      rw [Registry.holding_update, Registry.holding_update, h.holding]
    · exact .inl ⟨_, rfl, rfl⟩

theorem Alike.resume (h : Alike A own own' s t) {sub : Subscription} (hid : sub.id = A) :
    Alike A own own' (s.resume sub) (t.resume sub) := by
  unfold Service.resume Registry.moveTo
  rw [hid]
  rcases h.transition .active none with ⟨e, hs, ht⟩ | ⟨_, _, _, hs, ht, hholding⟩
  · rw [hs, ht]
    exact h
  · have htold : (StateChange.resumed A).id = A := rfl
    rw [hs, ht]
    exact (h.register hholding).emit sub htold

theorem alike_resume (h : Roster A own s.dispatcher) {sub : Subscription} (hid : sub.id ≠ A) :
    Alike A own own s (s.resume sub) := by
  unfold resume
  split
  · rename_i hmove
    obtain ⟨_, -, -, -, rfl⟩ := Registry.transition_eq_ok.1 hmove
    have htold : (StateChange.resumed sub.id).id ≠ A := hid
    have hmoved : Alike A own own s { s with registry := s.registry.update sub.id Subscription.resumed } :=
      alike_register h (by rw [Registry.holding_update, if_neg hid])
    exact hmoved.trans (alike_emit hmoved.right sub htold)
  · exact .refl h

/-! ## Establishing -/

theorem Alike.checkEstablish (h : Alike A own own' s t) (session : Session) (r : EstablishRequest) :
    s.checkEstablish session r = t.checkEstablish session r := by
  unfold Service.checkEstablish checkTimes
  rw [h.streams, h.schema, h.now]

/-- The subscription is established alike, if it is its turn in both. -/
theorem Alike.establish (h : Alike A own own' s t) (hs : s.registry.nextId = A) (ht : t.registry.nextId = A)
    (session : Session) (r : EstablishRequest) :
    Alike A own own' (s.establish session r).2 (t.establish session r).2 := by
  unfold Service.establish
  rw [h.checkEstablish]
  split
  · exact h
  · rename_i request revision _
    let sub := Subscription.launched A request
    have hstreams : s.streams.contains request.stream = t.streams.contains request.stream := by rw [h.streams]
    have hentered : Registry.holding A { s.registry.enter sub with
        nextId := A + 1, tallies := s.registry.tallies.insert A ⟨0, 0⟩ } =
          Registry.holding A { t.registry.enter sub with
            nextId := A + 1, tallies := t.registry.tallies.insert A ⟨0, 0⟩ } := by
      have hallotted := fun registry : Registry => registry.holding_allot A A (A + 1) ⟨0, 0⟩
      refine (hallotted (s.registry.enter sub)).trans (Eq.trans ?_ (hallotted (t.registry.enter sub)).symm)
      rw [Registry.holding_enter, Registry.holding_enter, h.holding]
    simp only [Registry.launch_eq, hstreams, hs, ht]
    by_cases hstream : t.streams.contains request.stream = true
    · cases hrefusing : t.datastore.refusing with
      | true =>
        simp only [hstream, if_true, Datastore.commit_of_refusing hrefusing,
          Datastore.commit_of_refusing (h.refusing.trans hrefusing)]
        refine h.register ?_
        rw [Registry.holding_leave, Registry.holding_leave, hentered]
      | false =>
        simp only [hstream, if_true, Datastore.commit_of_accepting hrefusing,
          Datastore.commit_of_accepting (h.refusing.trans hrefusing)]
        have htold : (StateChange.started sub.terms).id = A := rfl
        refine Alike.emit (h.change hentered ?_ ?_) sub htold
        · exact h.refusing
        · show (scheduled s.deadlines A request.stopTime).get? A = (scheduled t.deadlines A request.stopTime).get? A
          rw [Records.get?_scheduled, Records.get?_scheduled, h.deadline]
    · simp only [hstream]
      exact h

/-- A new subscription with another id, or none that came to be. -/
theorem alike_establish (h : Roster A own s.dispatcher) {session : Session} {r : EstablishRequest}
    (hne : (s.checkEstablish session r).isOk = true → s.registry.nextId ≠ A) :
    Alike A own own s (s.establish session r).2 := by
  rcases s.establish_cases session r with ⟨e, he⟩ | ⟨request, revision, hcheck, houtcome⟩
  · rw [he]
    exact .refl h
  have hne := hne (by rw [hcheck]; rfl)
  let sub := Subscription.launched s.registry.nextId request
  have hentered : (s.registry.enter sub).holding A = s.registry.holding A := by
    rw [Registry.holding_enter]
    exact if_neg hne
  have hallotted := fun registry : Registry =>
    (registry.holding_allot A s.registry.nextId (s.registry.nextId + 1) ⟨0, 0⟩).trans (if_neg hne)
  rcases houtcome with ⟨-, he⟩ | ⟨-, he⟩
  · rw [he]
    refine alike_register h ((hallotted ((s.registry.enter sub).leave sub)).trans ?_)
    rw [Registry.holding_leave]
    exact (if_neg hne).trans hentered
  · have hestablished : Alike A own own s (s.established sub) := by
      refine alike_change h ((hallotted (s.registry.enter sub)).trans hentered) rfl ?_
      rw [Records.get?_scheduled]
      exact if_neg hne
    have htold : (StateChange.started sub.terms).id ≠ A := hne
    rw [he]
    exact hestablished.trans (alike_emit hestablished.right sub htold)

/-! ## Modifying -/

theorem Alike.checkModify (h : Alike A own own' s t) (session : Session) {r : ModifyRequest} (hid : r.id = A) :
    s.checkModify session r = t.checkModify session r := by
  unfold Service.checkModify
  rw [hid, h.lookup, h.streams, h.schema, h.now]

/-- It is modified alike. -/
theorem Alike.modify (h : Alike A own own' s t) (hwf : s.registry.WF) (session : Session) {r : ModifyRequest}
    (hid : r.id = A) : Alike A own own' (s.modify session r).2 (t.modify session r).2 := by
  have hcheck := h.checkModify session hid
  unfold Service.modify
  rw [← hcheck]
  split
  · exact h
  · rename_i current resolved hok
    have hcurrent : current.id = A := (hwf.keyed r.id current (checkModify_eq_ok hok).1).trans hid
    have hupdated : ∀ f, (s.registry.update r.id f).holding A = (t.registry.update r.id f).holding A := fun f => by
      rw [Registry.holding_update, Registry.holding_update, h.holding]
    cases hrefusing : t.datastore.refusing with
    | true =>
      simp only [Datastore.commit_of_refusing hrefusing, Datastore.commit_of_refusing (h.refusing.trans hrefusing)]
      refine h.register ?_
      rw [Registry.update_update, Registry.update_update, hupdated]
    | false =>
      simp only [Datastore.commit_of_accepting hrefusing, Datastore.commit_of_accepting (h.refusing.trans hrefusing)]
      have htold : (StateChange.modified (r.change resolved current).terms).id = A := hcurrent
      have hmodified : Alike A own own' (s.modified r resolved current) (t.modified r resolved current) := by
        refine Alike.emit (h.change (hupdated _) ?_ ?_) _ htold
        · exact h.refusing
        · rw [Records.get?_scheduled, Records.get?_scheduled, h.deadline]
      split
      · exact hmodified.resume hcurrent
      · exact hmodified

/-- Modifying another one is nothing to it, even if that fails. -/
theorem alike_modify (h : Roster A own s.dispatcher) (hwf : s.registry.WF) (session : Session) {r : ModifyRequest}
    (hid : r.id ≠ A) : Alike A own own s (s.modify session r).2 := by
  rcases s.modify_cases session r with ⟨e, he⟩ | ⟨current, resolved, hcheck, -, he⟩
  · rw [he]
    exact .refl h
  · have hcurrent : current.id ≠ A := by
      rwa [hwf.keyed r.id current (checkModify_eq_ok hcheck).1]
    have htold : (StateChange.modified (r.change resolved current).terms).id ≠ A := hcurrent
    have hchanged : Alike A own own s { s with
        registry := s.registry.update r.id (r.change resolved)
        datastore := s.datastore.apply (.put (.subscription r.id) (r.change resolved current).toJson)
        deadlines := scheduled s.deadlines r.id r.stopTime } := by
      refine alike_change h (by rw [Registry.holding_update, if_neg hid]) rfl ?_
      rw [Records.get?_scheduled, if_neg hid]
    have hmodified : Alike A own own s (s.modified r resolved current) :=
      hchanged.trans (alike_emit hchanged.right _ htold)
    rw [he]
    simp only
    split
    · exact hmodified.trans (alike_resume hmodified.right hcurrent)
    · exact hmodified

/-! ## Ending -/

/-- It ends alike, and a failed commit leaves it alike. -/
theorem Alike.terminate (h : Alike A own own' s t) {sub : Subscription} (hid : sub.id = A)
    (hfound : s.registry.lookup A = some sub) (reason : TerminationReason) :
    Alike A own own' (s.terminate sub reason).2 (t.terminate sub reason).2 := by
  subst hid
  rw [terminate_eq hfound, terminate_eq (h.lookup.symm.trans hfound), h.refusing]
  have hleft : (s.registry.leave sub).holding sub.id = (t.registry.leave sub).holding sub.id := by
    rw [Registry.holding_leave, Registry.holding_leave, h.holding]
  split
  · split
    · refine h.register ?_
      unfold Registry.reinstate
      rw [Registry.holding_enter, Registry.holding_enter, hleft]
    · have htold : (StateChange.terminated sub.id reason).id = sub.id := rfl
      refine Alike.emit (s := s.terminated sub) (t := t.terminated sub) (h.change hleft ?_ ?_) sub.ended htold
      · exact h.refusing
      · rw [Table.get?_erase, Table.get?_erase, h.deadline]
  · exact h

theorem alike_terminate (h : Roster A own s.dispatcher) {sub : Subscription}
    (hfound : s.registry.lookup sub.id = some sub) (hid : sub.id ≠ A) (reason : TerminationReason) :
    Alike A own own s (s.terminate sub reason).2 := by
  have hleft : (s.registry.leave sub).holding A = s.registry.holding A := by
    rw [Registry.holding_leave, if_neg hid]
  rw [terminate_eq hfound]
  split
  · split
    · refine alike_register h ?_
      unfold Registry.reinstate
      rw [Registry.holding_enter]
      exact (if_neg hid).trans hleft
    · have hterminated : Alike A own own s (s.terminated sub) := by
        refine alike_change h hleft rfl ?_
        rw [Table.get?_erase, if_neg hid]
      have htold : (StateChange.terminated sub.id reason).id ≠ A := hid
      exact hterminated.trans (alike_emit hterminated.right sub.ended htold)
  · exact .refl h

theorem Alike.delete (h : Alike A own own' s t) (hwf : s.registry.WF) (session : Session) :
    Alike A own own' (s.delete session A).2 (t.delete session A).2 := by
  have hlookup := h.lookup
  unfold Service.delete
  rw [← hlookup]
  split
  · exact h
  · rename_i sub hfound
    split
    · exact h.terminate (hwf.keyed A sub hfound) hfound _
    · exact h

theorem alike_delete (h : Roster A own s.dispatcher) (hwf : s.registry.WF) (session : Session) (hk : k ≠ A) :
    Alike A own own s (s.delete session k).2 := by
  rcases s.delete_cases session k with ⟨e, he⟩ | ⟨sub, hfound, -, he⟩ <;> rw [he]
  · exact .refl h
  · obtain rfl : sub.id = k := hwf.keyed k sub hfound
    exact alike_terminate h hfound hk _

theorem Alike.kill (h : Alike A own own' s t) (hwf : s.registry.WF) :
    Alike A own own' (s.kill A).2 (t.kill A).2 := by
  have hlookup := h.lookup
  unfold Service.kill
  rw [← hlookup]
  split
  · exact h
  · rename_i sub hfound
    exact h.terminate (hwf.keyed A sub hfound) hfound _

theorem alike_kill (h : Roster A own s.dispatcher) (hwf : s.registry.WF) (hk : k ≠ A) :
    Alike A own own s (s.kill k).2 := by
  rcases s.kill_cases k with ⟨e, he⟩ | ⟨sub, hfound, he⟩ <;> rw [he]
  · exact .refl h
  · obtain rfl : sub.id = k := hwf.keyed k sub hfound
    exact alike_terminate h hfound hk _

/-! ## Stop-times -/

/-- It completes alike when its stop-time is reached. -/
theorem Alike.complete (h : Alike A own own' s t) (hwf : s.registry.WF) :
    Alike A own own' (s.complete A) (t.complete A) := by
  have hdeadline : (s.deadlines.erase A).get? A = (t.deadlines.erase A).get? A := by
    rw [Table.get?_erase, Table.get?_erase, h.deadline]
  cases hfound : s.registry.lookup A with
  | none =>
    rw [complete_of_lookup_none hfound, complete_of_lookup_none (h.lookup.symm.trans hfound)]
    exact h.change h.holding h.refusing hdeadline
  | some sub =>
    obtain rfl : sub.id = A := hwf.keyed A sub hfound
    have hlive := (hwf.sound _ sub hfound).live
    have htold : (StateChange.completed sub.id).id = sub.id := rfl
    rw [complete_eq hfound hlive, complete_eq (h.lookup.symm.trans hfound) hlive]
    refine Alike.emit (h.change ?_ ?_ hdeadline) sub.ended htold
    · rw [Registry.holding_leave, Registry.holding_leave, h.holding]
    · rw [Datastore.refusing_commitOrKeep, Datastore.refusing_commitOrKeep, h.refusing]

theorem alike_complete (h : Roster A own s.dispatcher) (hwf : s.registry.WF) (hk : k ≠ A) :
    Alike A own own s (s.complete k) := by
  have hdeadline : (s.deadlines.erase k).get? A = s.deadlines.get? A := by
    rw [Table.get?_erase, if_neg hk]
  cases hfound : s.registry.lookup k with
  | none =>
    rw [complete_of_lookup_none hfound]
    exact alike_change h rfl rfl hdeadline
  | some sub =>
    obtain rfl : sub.id = k := hwf.keyed k sub hfound
    have htold : (StateChange.completed sub.id).id ≠ A := hk
    have hleft : Alike A own own s { s with
        registry := s.registry.leave sub
        datastore := s.datastore.commitOrKeep [.delete (.subscription sub.id)]
        deadlines := s.deadlines.erase sub.id } :=
      alike_change h (by rw [Registry.holding_leave, if_neg hk]) (Datastore.refusing_commitOrKeep ..) hdeadline
    rw [complete_eq hfound (hwf.sound _ sub hfound).live]
    exact hleft.trans (alike_emit hleft.right sub.ended htold)

/-! ## Sessions that close -/

theorem Alike.drop (h : Alike A own own' s t) : Alike A own own' (s.drop A) (t.drop A) := by
  cases hfound : s.registry.lookup A with
  | none =>
    rw [drop_of_lookup_none hfound, drop_of_lookup_none (h.lookup.symm.trans hfound)]
    exact h
  | some sub =>
    rw [drop_eq hfound, drop_eq (h.lookup.symm.trans hfound)]
    refine Alike.detach (h.change ?_ h.refusing ?_)
    · rw [Registry.holding_leave, Registry.holding_leave, h.holding]
    · rw [Table.get?_erase, Table.get?_erase, h.deadline]

theorem alike_drop (h : Roster A own s.dispatcher) (hwf : s.registry.WF) (hk : k ≠ A) :
    Alike A own own s (s.drop k) := by
  cases hfound : s.registry.lookup k with
  | none =>
    rw [drop_of_lookup_none hfound]
    exact .refl h
  | some sub =>
    obtain rfl : sub.id = k := hwf.keyed k sub hfound
    have hleft : Alike A own own s { s with
        registry := s.registry.leave sub, deadlines := s.deadlines.erase sub.id } := by
      refine alike_change h (by rw [Registry.holding_leave, if_neg hk]) rfl ?_
      rw [Table.get?_erase, if_neg hk]
    rw [drop_eq hfound]
    exact hleft.trans (alike_detach hleft.right hk)

/-- A session that closes takes the subscription along if it lists it. -/
theorem mem_ofSession_iff (registry : Registry) (session : SessionId) (A : SubscriptionId) :
    A ∈ registry.ofSession session ↔ (registry.holding A).listed session = true := by
  show _ ↔ (registry.owned session).contains A = true
  unfold Registry.ofSession Registry.owned
  cases registry.sessions.get? session with
  | none => exact ⟨nofun, nofun⟩
  | some owned => exact Table.mem_keys_iff owned A

theorem nodup_ofSession (registry : Registry) (session : SessionId) : (registry.ofSession session).Nodup := by
  unfold Registry.ofSession
  cases registry.sessions.get? session with
  | none => exact .nil
  | some owned => exact Table.keys_nodup owned

theorem alike_commitOrKeep (h : Roster A own s.dispatcher) (writes : List Write) :
    Alike A own own s { s with datastore := s.datastore.commitOrKeep writes } :=
  alike_change h rfl (Datastore.refusing_commitOrKeep ..) rfl

/-- A session that closes takes it along in both, or in neither. -/
theorem Alike.closeSession (h : Alike A own own' s t) (hs : s.registry.WF) (ht : t.registry.WF) (session : SessionId) :
    Alike A own own' (s.closeSession session).2 (t.closeSession session).2 := by
  have hdropped := h.foldl (f := Service.drop) (P := fun s => s.registry.WF) (fun _ k hwf => wf_drop hwf k)
    (fun h _ _ => h.drop) (fun h hwf hk => alike_drop h hwf hk) (nodup_ofSession s.registry session)
    (nodup_ofSession t.registry session) (by rw [mem_ofSession_iff, mem_ofSession_iff, h.holding]) hs ht
  exact ((alike_commitOrKeep hdropped.left _).symm.trans hdropped).trans (alike_commitOrKeep hdropped.right _)

/-- A session that does not own it closes without it. -/
theorem alike_closeSession (h : Roster A own s.dispatcher) (hwf : s.registry.WF) {session : SessionId}
    (hA : A ∉ s.registry.ofSession session) : Alike A own own s (s.closeSession session).2 := by
  have hdropped := alike_foldl (f := drop) (P := fun s => s.registry.WF) (fun _ k hwf => wf_drop hwf k)
    (fun h _ _ => h.drop) (fun h hwf hk => alike_drop h hwf hk) (nodup_ofSession s.registry session) h hwf
  rw [if_neg hA] at hdropped
  exact hdropped.trans (alike_commitOrKeep hdropped.right _)

/-! ## Filters and schemas -/

theorem Alike.revalidateOne (h : Alike A own own' s t) (hwf : s.registry.WF) :
    Alike A own own' (s.revalidateOne A) (t.revalidateOne A) := by
  have hlookup := h.lookup
  have hresolve : s.streams.resolve s.schema = t.streams.resolve t.schema := by rw [h.streams, h.schema]
  unfold Service.revalidateOne
  rw [← hlookup, hresolve]
  split
  · exact h
  · rename_i sub hfound
    split
    · rename_i resolved _
      have hresolved : Alike A own own'
          { s with registry := s.registry.update A fun r => { r with resolved } }
          { t with registry := t.registry.update A fun r => { r with resolved } } := by
        refine h.register ?_
        rw [Registry.holding_update, Registry.holding_update, h.holding]
      simp only
      split
      · exact hresolved.resume (hwf.keyed A sub hfound)
      · exact hresolved
    · split
      · unfold Registry.suspend
        rcases h.transition .suspended (some .filterUnavailable) with ⟨e, hs, ht⟩ | ⟨_, _, _, hs, ht, hholding⟩
        · rw [hs, ht]
          exact h
        · have htold : (StateChange.suspended A .filterUnavailable).id = A := rfl
          rw [hs, ht]
          exact (h.register hholding).emit sub htold
      · exact h

/-- The filter of another one is resolved again without it. -/
theorem alike_revalidateOne (h : Roster A own s.dispatcher) (hwf : s.registry.WF) (hk : k ≠ A) :
    Alike A own own s (s.revalidateOne k) := by
  unfold revalidateOne
  split
  · exact .refl h
  · rename_i sub hfound
    have hid : sub.id ≠ A := by rwa [hwf.keyed k sub hfound]
    split
    · rename_i resolved _
      have hresolved : Alike A own own s { s with registry := s.registry.update k fun r => { r with resolved } } :=
        alike_register h (by rw [Registry.holding_update, if_neg hk])
      simp only
      split
      · exact hresolved.trans (alike_resume hresolved.right hid)
      · exact hresolved
    · split
      · split
        · rename_i hsuspend
          obtain ⟨_, -, -, -, rfl⟩ := Registry.transition_eq_ok.1 hsuspend
          have hsuspended : Alike A own own s { s with registry := s.registry.update k fun r =>
              { r with state := .suspended, suspension := some .filterUnavailable } } :=
            alike_register h (by rw [Registry.holding_update, if_neg hk])
          have htold : (StateChange.suspended k .filterUnavailable).id ≠ A := hk
          exact hsuspended.trans (alike_emit hsuspended.right sub htold)
        · exact .refl h
      · exact .refl h

/-- Its own filter is resolved again in both, wherever its turn comes. -/
theorem Alike.revalidate (h : Alike A own own' s t) (hs : s.registry.WF) (ht : t.registry.WF) :
    Alike A own own' s.revalidate t.revalidate := by
  refine h.foldl (f := Service.revalidateOne) (P := fun s => s.registry.WF) (fun _ k hwf => wf_revalidateOne hwf k)
    (fun h hs _ => h.revalidateOne hs) (fun h hwf hk => alike_revalidateOne h hwf hk) (Table.keys_nodup _)
    (Table.keys_nodup _) ?_ hs ht
  have hmem : ∀ registry : Registry, A ∈ registry.ids ↔ (registry.lookup A).isSome = true := fun registry =>
    Table.mem_keys_iff registry.subscriptions A
  rw [hmem, hmem, h.lookup]

/-- Other filters and another schema, for everybody. -/
theorem Alike.configure (h : Alike A own own' s t) {streams streams' : Streams} {schema schema' : Schema}
    (hstreams : streams = streams') (hschema : schema = schema') :
    Alike A own own' { s with streams, schema } { t with streams := streams', schema := schema' } := by
  refine ⟨h.left, h.right, ?_⟩
  show { s.share A own with streams, schema } = { t.share A own' with streams := streams', schema := schema' }
  rw [h.share, hstreams, hschema]

/-- What concerns everybody does the same to it in both. -/
theorem Alike.revise (h : Alike A own own' s t) (hs : s.registry.WF) (ht : t.registry.WF) {a : Action}
    (ha : a.revises = true) : Alike A own own' (s.step a) (t.step a) := by
  cases a with
  | putFilter name filter =>
    have hput : s.streams.putFilter s.schema name filter = t.streams.putFilter t.schema name filter := by
      rw [h.streams, h.schema]
    show Alike A own own' (s.putFilter name filter).2 (t.putFilter name filter).2
    unfold putFilter
    rw [hput]
    split
    · exact (h.configure rfl h.schema).revalidate hs ht
    · exact h
  | removeFilter name =>
    have hremoved : s.streams.removeFilter name = t.streams.removeFilter name := by rw [h.streams]
    show Alike A own own' (s.removeFilter name).2 (t.removeFilter name).2
    unfold removeFilter
    rw [hremoved]
    split
    · exact (h.configure rfl h.schema).revalidate hs ht
    · exact h
  | setSchema schema watching =>
    have hset := h.configure h.streams (Eq.refl schema)
    cases watching with
    | true => exact hset.revalidate hs ht
    | false => exact hset
  | revalidate => exact h.revalidate hs ht
  | _ => cases ha

end Service

end YangSubscriptions
