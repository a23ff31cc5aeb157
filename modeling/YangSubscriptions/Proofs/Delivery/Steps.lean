import YangSubscriptions.Proofs.Delivery.Moves
import YangSubscriptions.Proofs.Service.Turn

/-!
# Steps are moves

An action of the service is a run of moves. Whatever an operation does to records, datastore and deadlines is
a change that the dispatcher does not see, and what it tells receivers are deliveries about ids that it found
registered or gave itself (`Handled`, `handled_step`). So what holds of every order of moves holds of every
run, as long as the feeds are there (`moved_run`).
-/

namespace YangSubscriptions

theorem Action.exists_of_establishes {a : Action} (h : a.establishes = true) :
    ∃ session r, a = .request session (.establish r) := by
  unfold establishes at h
  split at h
  · exact ⟨_, _, rfl⟩
  · cases h

namespace Service

/-- Do moves lead from one state to another? -/
def Moved (s t : Service) : Prop := ∃ ms, s.moves ms = t

namespace Moved

theorem refl (s : Service) : s.Moved s := ⟨[], rfl⟩

theorem trans {s t u : Service} (h : s.Moved t) (h' : t.Moved u) : s.Moved u := by
  obtain ⟨ms, rfl⟩ := h
  obtain ⟨ms', rfl⟩ := h'
  exact ⟨ms ++ ms', s.moves_append ms ms'⟩

/-- One move. -/
theorem of_move (s : Service) (m : Move) : s.Moved (s.move m) := ⟨[m], rfl⟩

/-- A change of nothing that is the dispatcher's. -/
theorem alter {s t : Service} (hrouter : t.router = s.router) (hdispatcher : t.dispatcher = s.dispatcher)
    (hstreams : t.streams.streams = s.streams.streams) : s.Moved t := by
  refine ⟨[.alter t], ?_⟩
  show s.alter t = t
  unfold Service.alter
  rw [← hrouter, ← hdispatcher, ← hstreams]

/-- Telling a state change is moves, as far as delivery goes. -/
theorem emit (s : Service) (sub : Subscription) (change : StateChange) : s.Moved (s.emit sub change) := by
  have ht : s.Moved { s with journal := s.journal ++ [change] } := alter rfl rfl rfl
  rw [emit_eq]
  split
  · exact ht.trans (of_move _ (.deliver change sub.encoding))
  · exact ht

end Moved

/-! ## What operations do -/

variable {P : SubscriptionId → Prop}

/-- Does an operation lead from one state to another? Its changes leave feeds, listeners, logs, tallies, the
counter and the journal alone, and every id that it tells of meets the condition. -/
inductive Handled (P : SubscriptionId → Prop) (s : Service) : Service → Prop where
  | refl : Handled P s s
  | alter {t u : Service} (h : Handled P s t) (router : u.router = t.router) (dispatcher : u.dispatcher = t.dispatcher)
    (streams : u.streams.streams = t.streams.streams) (tallies : u.registry.tallies = t.registry.tallies)
    (nextId : u.registry.nextId = t.registry.nextId) (journal : u.journal = t.journal) : Handled P s u
  | emit {t : Service} {sub : Subscription} {change : StateChange} (h : Handled P s t) (id : P change.id) :
    Handled P s (t.emit sub change)
  | detach {t : Service} {id : SubscriptionId} (h : Handled P s t) : Handled P s (t.detach id).2

namespace Handled

variable {s t u : Service}

theorem trans (h : Handled P s t) (h' : Handled P t u) : Handled P s u := by
  induction h' with
  | refl => exact h
  | alter _ router dispatcher streams tallies nextId journal ih =>
    exact ih.alter router dispatcher streams tallies nextId journal
  | emit _ id ih => exact ih.emit id
  | detach _ ih => exact ih.detach

theorem nextId_eq (h : Handled P s t) : t.registry.nextId = s.registry.nextId := by
  induction h with
  | refl => rfl
  | alter _ _ _ _ _ nextId _ ih => exact nextId.trans ih
  | @emit t sub change _ _ ih => exact (congrArg (fun r => r.registry.nextId) (records_emit t sub change)).trans ih
  | @detach t id _ ih => exact (congrArg (fun s => s.registry.nextId) (atRest_detach t id)).trans ih

/-- Whatever is done for subscriptions is moves, as far as delivery goes. -/
theorem moved (h : Handled P s t) : s.Moved t := by
  induction h with
  | refl => exact .refl s
  | alter _ router dispatcher streams _ _ _ ih => exact ih.trans (.alter router dispatcher streams)
  | emit _ _ ih => exact ih.trans (.emit _ _ _)
  | detach _ ih => exact ih.trans (.of_move _ (.detach _))

end Handled

theorem Registered.of_revised {s t : Service} (h : Registered P s) (hrevised : s.records.Revised t.records) :
    Registered P t := by
  obtain ⟨g, hg, ht⟩ := hrevised
  intro id sub hsub
  rw [← lookup_records, ht, Registry.lookup, Table.get?_map] at hsub
  obtain ⟨old, hold, rfl⟩ := Option.map_eq_some_iff.1 hsub
  obtain ⟨hid, hsubid⟩ := h id old hold
  rw [Subscription.id_eq_of_terms (hg id old).1]
  exact ⟨hid, hsubid⟩

/-! ## Requests -/

theorem handled_resume (s : Service) {sub : Subscription} (hid : P sub.id) : Handled P s (s.resume sub) := by
  unfold resume
  split
  · rename_i hmove
    obtain ⟨_, -, -, -, rfl⟩ := Registry.transition_eq_ok.1 hmove
    exact .emit (.alter .refl rfl rfl rfl rfl rfl rfl) hid
  · exact .refl

/-- A request for a subscription is refused, or handled with the next id given. -/
theorem handled_establish {s : Service} (hid : P s.registry.nextId) (session : Session) (r : EstablishRequest) :
    (s.establish session r).2 = s ∨ Handled P s.skipped (s.establish session r).2 := by
  rcases s.establish_cases session r with ⟨e, he⟩ | ⟨request, revision, -, ⟨-, he⟩ | ⟨-, he⟩⟩
  · rw [he]
    exact .inl rfl
  · rw [he]
    exact .inr (.alter .refl rfl rfl rfl rfl rfl rfl)
  · rw [he]
    exact .inr (.emit (.alter .refl rfl rfl rfl rfl rfl rfl) hid)

/-- Modifying concerns the subscription of the request at most. -/
theorem handled_modify {s : Service} (h : Registered P s) (session : Session) (r : ModifyRequest) :
    Handled P s (s.modify session r).2 := by
  unfold modify
  split
  · exact .refl
  · rename_i current resolved hcheck
    have hid : P current.id := (h r.id current (checkModify_eq_ok hcheck).1).2
    simp only
    split
    · exact .alter .refl rfl rfl rfl rfl rfl rfl
    · split
      · refine Handled.trans ?_ (handled_resume _ hid)
        exact .emit (.alter .refl rfl rfl rfl rfl rfl rfl) hid
      · exact .emit (.alter .refl rfl rfl rfl rfl rfl rfl) hid

theorem handled_terminate (s : Service) {sub : Subscription} (hid : P sub.id) (reason : TerminationReason) :
    Handled P s (s.terminate sub reason).2 := by
  unfold terminate
  split
  · split
    · exact .refl
    · exact .refl
    · rename_i hretire
      obtain ⟨-, htallies, hnext⟩ := Registry.retire_eq_ok hretire
      split
      · exact .alter .refl rfl rfl rfl htallies hnext rfl
      · exact .emit (.alter .refl rfl rfl rfl htallies hnext rfl) hid
  · exact .refl

theorem handled_answer {s : Service} (h : Registered P s) (session : Session) {r : Request}
    (hr : (Action.request session r).establishes = false) : Handled P s (s.answer session r).2 := by
  cases r with
  | establish r => cases hr
  | modify r => exact handled_modify h session r
  | delete id =>
    show Handled P s (s.delete session id).2
    rcases s.delete_cases session id with ⟨e, he⟩ | ⟨sub, hsub, -, he⟩ <;> rw [he]
    · exact .refl
    · exact handled_terminate s (h id sub hsub).2 _
  | kill id =>
    show Handled P s (s.kill id).2
    rcases s.kill_cases id with ⟨e, he⟩ | ⟨sub, hsub, he⟩ <;> rw [he]
    · exact .refl
    · exact handled_terminate s (h id sub hsub).2 _

/-! ## Sessions, stop-times and filters -/

/-- Closing a session concerns what it owned. -/
theorem handled_closeSession (s : Service) (session : SessionId) : Handled P s (s.closeSession session).2 := by
  have hdrop : ∀ (s : Service) id, Handled P s (s.drop id) := by
    intro s id
    unfold drop Registry.delete
    cases s.registry.lookup id with
    | none => exact .refl
    | some sub => exact .detach (.alter .refl rfl rfl rfl rfl rfl rfl)
  have hdrops := foldl_drop_preserves (I := Handled P s) (fun t id ht => ht.trans (hdrop t id))
    (s.registry.ofSession session) .refl
  exact hdrops.alter rfl rfl rfl rfl rfl rfl

theorem handled_complete {s : Service} (h : Registered P s) (id : SubscriptionId) : Handled P s (s.complete id) := by
  unfold complete
  simp only
  split
  · exact .alter .refl rfl rfl rfl rfl rfl rfl
  · rename_i hretire
    obtain ⟨hfound, htallies, hnext⟩ := Registry.retire_eq_ok hretire
    obtain ⟨sub, hsub⟩ := Option.isSome_iff_exists.1 hfound
    exact .emit (.alter .refl rfl rfl rfl htallies hnext rfl) (h id sub hsub).1

theorem handled_revalidateOne {s : Service} (h : Registered P s) (id : SubscriptionId) :
    Handled P s (s.revalidateOne id) := by
  unfold revalidateOne
  split
  · exact .refl
  · rename_i sub hsub
    obtain ⟨hid, hsubid⟩ := h id sub hsub
    split
    · rename_i resolved _
      have hupdated := (Handled.refl (P := P) (s := s)).alter
        (u := { s with registry := s.registry.update id fun r => { r with resolved } }) rfl rfl rfl rfl rfl rfl
      simp only
      split
      · exact hupdated.trans (handled_resume _ hsubid)
      · exact hupdated
    · split
      · split
        · rename_i hsuspend
          obtain ⟨_, -, -, -, rfl⟩ := Registry.transition_eq_ok.1 hsuspend
          exact .emit (.alter .refl rfl rfl rfl rfl rfl rfl) hid
        · exact .refl
      · exact .refl

/-- Resolving filters again concerns registered subscriptions. -/
theorem handled_revalidate {s : Service} (h : Registered P s) : Handled P s s.revalidate := by
  have hfold : ∀ (ids : List SubscriptionId) (s : Service), Registered P s →
      Handled P s (ids.foldl revalidateOne s) := by
    intro ids
    induction ids with
    | nil => exact fun s _ => .refl
    | cons id ids ih =>
      exact fun s h => (handled_revalidateOne h id).trans (ih _ (h.of_revised (revised_revalidateOne s id)))
  exact hfold s.registry.ids s h

theorem handled_of_revises {s : Service} (h : Registered P s) {a : Action} (ha : a.revises = true) :
    Handled P s (s.step a) := by
  obtain ⟨streams, schema, hstreams, hstep⟩ := s.step_of_revises ha
  have haltered := (Handled.refl (P := P) (s := s)).alter (u := { s with streams, schema }) rfl rfl hstreams rfl rfl rfl
  rcases hstep with he | he <;> rw [he]
  · exact haltered
  · exact haltered.trans (handled_revalidate h)

/-! ## Actions -/

/-- What neither carries notifications nor asks for a subscription is handled. -/
theorem handled_step {s : Service} (h : Registered P s) {a : Action} (hcarries : a.carries = false)
    (hestablishes : a.establishes = false) : Handled P s (s.step a) := by
  cases a with
  | request session r => exact handled_answer h session hestablishes
  | closeSession session => exact handled_closeSession s session
  | expire id => exact handled_complete h id
  | putFilter | removeFilter | setSchema | revalidate => exact handled_of_revises h rfl
  | refuse refusing => exact .alter .refl rfl rfl rfl rfl rfl rfl
  | wait now => exact .alter .refl rfl rfl rfl rfl rfl rfl
  | _ => cases hcarries

/-- The move that an action amounts to, if it carries notifications and anything at all comes of it. -/
def moveOf? (s : Service) : Action → Option Move
  | .publish n => some (.publish n)
  | .dispatch stream => some (.dispatch stream)
  | .listen id capacity =>
    if (s.registry.lookup id).any (·.state.isLive) then some (.attach id capacity false) else none
  | .attach id capacity replace => some (.attach id capacity replace)
  | .detach id => some (.detach id)
  | .receive l max => some (.receive l max)
  | .hangUp l => some (.hangUp l)
  | .stop => some .stop
  | _ => none

theorem step_of_carries (s : Service) {a : Action} (hcarries : a.carries = true) (hne : a ≠ .closeFeeds) :
    s.step a = (s.moveOf? a).elim s s.move := by
  cases a with
  | listen id capacity =>
    show (s.listen id capacity).2 = _
    unfold listen moveOf?
    cases hsub : s.registry.lookup id with
    | none => simp [hsub]
    | some sub =>
      cases hlive : sub.state.isLive with
      | false => simp [hsub, hlive]
      | true =>
        simp only [hsub, hlive, Option.any_some, if_true]
        show _ = (s.attach id capacity false).2.2
        split <;> rename_i he <;> rw [he]
  | closeFeeds => exact absurd rfl hne
  | publish n => rfl
  | dispatch stream => rfl
  | attach id capacity replace => rfl
  | detach id => rfl
  | receive l max => rfl
  | hangUp l => rfl
  | stop => rfl
  | _ => cases hcarries

/-- Every action but the end of the feeds is a run of moves. -/
theorem moved_step (s : Service) {a : Action} (ha : a ≠ .closeFeeds) : s.Moved (s.step a) := by
  cases hcarries : a.carries with
  | true =>
    rw [s.step_of_carries hcarries ha]
    cases s.moveOf? a with
    | none => exact .refl s
    | some m => exact .of_move s m
  | false =>
    cases hestablishes : a.establishes with
    | false =>
      have hall : Registered (fun _ => True) s := fun _ _ _ => ⟨trivial, trivial⟩
      exact (handled_step hall hcarries hestablishes).moved
    | true =>
      obtain ⟨session, r, rfl⟩ := Action.exists_of_establishes hestablishes
      show s.Moved (s.establish session r).2
      rcases handled_establish (P := fun _ => True) (s := s) trivial session r with he | h
      · rw [he]
        exact .refl s
      · exact Moved.trans (t := s.skipped) (.alter rfl rfl rfl) h.moved

/-- Until the feeds are closed, a run is moves. -/
theorem moved_run {as : List Action} (h : Action.closeFeeds ∉ as) (s : Service) : s.Moved (s.run as) := by
  induction as generalizing s with
  | nil => exact .refl s
  | cons a as ih =>
    have ha : a ≠ .closeFeeds := fun he => h (he ▸ List.mem_cons_self)
    exact (moved_step s ha).trans (ih (fun hmem => h (List.mem_cons_of_mem _ hmem)) (s.step a))

end Service

end YangSubscriptions
