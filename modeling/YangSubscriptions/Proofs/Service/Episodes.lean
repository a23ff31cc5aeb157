import YangSubscriptions.Proofs.Delivery.Emission
import YangSubscriptions.Proofs.Service.Revalidation
import Mathlib.Logic.Relation

/-!
# Episodes

Every operation on subscriptions is a series of episodes, each about one of them: its record changes in silence,
or it is told of a state change that leads from its state to the next (`StateChange.leads`), or it is dropped and
nobody is told. `episodes_step` goes through the operations once; what single episodes preserve then holds of all
of them, rollbacks included.
-/

namespace YangSubscriptions

/-- The state that a state change leads to, if it may be told of a subscription in that state. -/
def StateChange.leads : StateChange → SubscriptionState → Option SubscriptionState
  | started _, .start => some .active
  | suspended _ _, .active => some .suspended
  | resumed _, .suspended => some .active
  | modified _, s => if s.isLive then some s else none
  | terminated _ _, s | completed _, s => if s.isLive then some .ended else none
  | _, _ => none

/-- The state that is registered: there is no record of a subscription before it starts and after it ends. -/
def SubscriptionState.registered (s : SubscriptionState) : Option SubscriptionState := if s.isLive then some s else none

theorem SubscriptionState.registered_of_live {s : SubscriptionState} (h : s.isLive = true) : s.registered = some s :=
  if_pos h

/-- The last state change of a subscription takes it out of the registry, and no other does. -/
theorem StateChange.registered_of_leads {c : StateChange} {before after : SubscriptionState}
    (h : c.leads before = some after) : after.registered = none ↔ c.isTerminal = true := by
  cases c <;> cases before <;> cases h <;> simp [SubscriptionState.registered, SubscriptionState.isLive, isTerminal]

namespace Service

/-- The state of a subscription, if it is registered. -/
def stateOf (s : Service) (id : SubscriptionId) : Option SubscriptionState := (s.registry.lookup id).map (·.state)

theorem stateOf_of_lookup {s : Service} {id : SubscriptionId} {sub : Subscription}
    (h : s.registry.lookup id = some sub) : s.stateOf id = some sub.state := by
  rw [stateOf, h, Option.map_some]

theorem stateOf_eq_none {s : Service} {id : SubscriptionId} : s.stateOf id = none ↔ s.registry.lookup id = none :=
  Option.map_eq_none_iff

/-- What happens to one subscription at a time. -/
structure Episode (id : SubscriptionId) (change? : Option StateChange) (s t : Service) : Prop where
  about : ∀ c, change? = some c → c.id = id
  journal : t.journal = s.journal ++ change?.toList
  others : ∀ k, k ≠ id → t.stateOf k = s.stateOf k
  silent : change? = none → t.stateOf id = s.stateOf id ∨ t.stateOf id = none
  told : ∀ c, change? = some c → ∃ before after, s.stateOf id = before.registered ∧ c.leads before = some after ∧
    t.stateOf id = after.registered ∧ (before = .start → s.history id = [])
  sound : s.dispatcher.Sound → t.dispatcher.Sound
  /-- A listener that is attached was so before, and its subscription did not just end. -/
  attached : s.dispatcher.Sound → ∀ k l, t.dispatcher.attached.get? k = some l →
    s.dispatcher.attached.get? k = some l ∧ (s.stateOf k ≠ none → t.stateOf k ≠ none)

/-- Do episodes, one after another, lead from one state to another? -/
def Episodes : Service → Service → Prop := Relation.ReflTransGen fun s t => ∃ id change?, Episode id change? s t

namespace Episodes

variable {s t u : Service}

theorem refl (s : Service) : s.Episodes s := Relation.ReflTransGen.refl

theorem trans (h : s.Episodes t) (h' : t.Episodes u) : s.Episodes u := Relation.ReflTransGen.trans h h'

theorem single (id : SubscriptionId) (change? : Option StateChange) (h : Episode id change? s t) : s.Episodes t :=
  Relation.ReflTransGen.single ⟨id, change?, h⟩

/-- What every episode preserves holds after all of them. -/
theorem preserves {I : Service → Prop} (h : s.Episodes t)
    (hepisode : ∀ {s t : Service} {id change?}, Episode id change? s t → I s → I t) (hs : I s) : I t := by
  induction h with
  | refl => exact hs
  | tail _ hlast ih =>
    obtain ⟨id, change?, hlast⟩ := hlast
    exact hepisode hlast ih

/-- Whoever ends has its listener let go. -/
theorem attached (h : s.Episodes t) (hsound : s.dispatcher.Sound) {k : SubscriptionId} {l : ListenerId}
    (hk : t.dispatcher.attached.get? k = some l) :
    s.dispatcher.attached.get? k = some l ∧ (s.stateOf k ≠ none → t.stateOf k ≠ none) := by
  have hboth := h.preserves (I := fun t => t.dispatcher.Sound ∧ ∀ k l, t.dispatcher.attached.get? k = some l →
    s.dispatcher.attached.get? k = some l ∧ (s.stateOf k ≠ none → t.stateOf k ≠ none)) (fun {t u _ _} he ht => ?_)
    ⟨hsound, fun k l hk => ⟨hk, fun h => h⟩⟩
  · exact hboth.2 k l hk
  · refine ⟨he.sound ht.1, fun k l hk => ?_⟩
    obtain ⟨hk', hstill⟩ := he.attached ht.1 k l hk
    obtain ⟨hk'', hstill'⟩ := ht.2 k l hk'
    exact ⟨hk'', fun h => hstill (hstill' h)⟩

/-! ## Kinds of episodes -/

/-- A change that shows neither in a state nor in what is told. -/
theorem aside (hjournal : t.journal = s.journal) (hstate : ∀ id, t.stateOf id = s.stateOf id)
    (hdispatcher : t.dispatcher = s.dispatcher) : s.Episodes t :=
  single 0 none {
    about := nofun
    journal := by rw [hjournal, Option.toList_none, List.append_nil]
    others := fun k _ => hstate k
    silent := fun _ => .inl (hstate 0)
    told := nofun
    sound := fun h => hdispatcher ▸ h
    attached := fun _ k l hk => ⟨hdispatcher ▸ hk, fun hsome => hstate k ▸ hsome⟩ }

/-- A subscription is told of its next state. -/
theorem told {registry : Registry} {datastore : Datastore} {deadlines : Table SubscriptionId Instant}
    (sub : Subscription) (change : StateChange) (before after : SubscriptionState)
    (hbefore : s.stateOf change.id = before.registered) (hleads : change.leads before = some after)
    (hafter : (registry.lookup change.id).map (·.state) = after.registered)
    (hothers : ∀ k, k ≠ change.id → registry.lookup k = s.registry.lookup k)
    (hfirst : before = .start → s.history change.id = []) :
    s.Episodes ({ s with registry, datastore, deadlines }.emit sub change) := by
  have hstate : ∀ k, ({ s with registry, datastore, deadlines }.emit sub change).stateOf k =
      (registry.lookup k).map (·.state) := by
    intro k
    rw [stateOf, lookup_emit]
  have hkept : ∀ k, k ≠ change.id → ({ s with registry, datastore, deadlines }.emit sub change).stateOf k =
      s.stateOf k := by
    intro k hk
    rw [hstate, hothers k hk, stateOf]
  refine single change.id (some change) {
    about := fun c hc => congrArg StateChange.id (Option.some.inj hc).symm
    journal := journal_emit ..
    others := hkept
    silent := nofun
    told := ?_
    sound := fun h => sound_emit (by exact h) sub change
    attached := ?_ }
  · rintro c ⟨⟩
    exact ⟨before, after, hbefore, hleads, (hstate _).trans hafter, hfirst⟩
  · intro hsound k l hk
    rw [get?_attached_emit (by exact hsound)] at hk
    split at hk
    · cases hk
    · rename_i hnot
      refine ⟨hk, fun hsome => ?_⟩
      by_cases hid : k = change.id
      · subst hid
        rw [hstate, hafter, ne_eq, StateChange.registered_of_leads hleads]
        exact fun hterminal => hnot ⟨hterminal, rfl⟩
      · rw [hkept k hid]
        exact hsome

/-- A subscription is told that it ended. -/
theorem ended {sub : Subscription} (hfound : s.registry.lookup sub.id = some sub) (hlive : sub.state.isLive = true)
    (change : StateChange) (hid : change.id = sub.id) (hleads : change.leads sub.state = some .ended)
    {datastore : Datastore} {deadlines : Table SubscriptionId Instant} :
    s.Episodes ({ s with registry := s.registry.leave sub, datastore, deadlines }.emit sub.ended change) := by
  refine told sub.ended change sub.state .ended ?_ hleads ?_ (fun k hk => ?_) fun hstart => ?_
  · rw [hid, stateOf_of_lookup hfound, SubscriptionState.registered_of_live hlive]
  · rw [hid, Registry.lookup_leave, if_pos rfl, Option.map_none]
    rfl
  · rw [Registry.lookup_leave, if_neg (hid ▸ Ne.symm hk)]
  · rw [hstart] at hlive
    cases hlive

/-- A subscription is dropped. -/
theorem dropped {registry : Registry} {deadlines : Table SubscriptionId Instant} {id : SubscriptionId}
    (hgone : registry.lookup id = none) (hothers : ∀ k, k ≠ id → registry.lookup k = s.registry.lookup k) :
    s.Episodes ({ s with registry, deadlines }.detach id).2 := by
  have hstate : ∀ k, ({ s with registry, deadlines }.detach id).2.stateOf k = (registry.lookup k).map (·.state) := by
    intro k
    rw [stateOf, lookup_of_atRest (atRest_detach ..)]
  have hkept : ∀ k, k ≠ id → ({ s with registry, deadlines }.detach id).2.stateOf k = s.stateOf k := by
    intro k hk
    rw [hstate, hothers k hk, stateOf]
  refine single id none {
    about := nofun
    journal := by rw [journal_detach, Option.toList_none, List.append_nil]
    others := hkept
    silent := fun _ => .inr (by rw [hstate, hgone, Option.map_none])
    told := nofun
    sound := fun h => sound_detach (by exact h) id
    attached := ?_ }
  intro hsound k l hk
  rw [get?_attached_detach (by exact hsound)] at hk
  split at hk
  · cases hk
  · rename_i hne
    refine ⟨hk, fun hsome => ?_⟩
    rw [hkept k (Ne.symm hne)]
    exact hsome

end Episodes

/-! ## Requests -/

section
variable {s : Service}

theorem wf_emit (sub : Subscription) (change : StateChange) :
    (s.emit sub change).registry.WF ↔ s.registry.WF := by
  have hrecords : (s.emit sub change).registry.untallied = s.registry.untallied :=
    congrArg Records.registry (records_emit s sub change)
  rw [← Registry.wf_untallied, hrecords, Registry.wf_untallied]

/-- A record that is changed in its place. -/
theorem lookup_update_of_ne {r : Registry} {id k : SubscriptionId} (f : Subscription → Subscription) (hk : k ≠ id) :
    (r.update id f).lookup k = r.lookup k := by
  rw [Registry.lookup_update, if_neg hk.symm]

theorem state_update {r : Registry} {id : SubscriptionId} {found : Subscription} (h : r.lookup id = some found)
    (f : Subscription → Subscription) : ((r.update id f).lookup id).map (·.state) = some (f found).state := by
  rw [Registry.lookup_update, if_pos rfl, h, Option.map_some, Option.map_some]

/-- A change of records that leaves their states. -/
theorem episodes_update {f : Subscription → Subscription} (h : ∀ sub, (f sub).state = sub.state) (id : SubscriptionId) :
    s.Episodes { s with registry := s.registry.update id f } := by
  refine .aside rfl (fun k => ?_) rfl
  show ((s.registry.update id f).lookup k).map _ = (s.registry.lookup k).map _
  rw [Registry.lookup_update]
  split
  · rw [Option.map_map]
    exact Option.map_congr fun sub _ => h sub
  · rfl

theorem episodes_resume (hwf : s.registry.WF) (sub : Subscription) : s.Episodes (s.resume sub) := by
  unfold resume
  split
  · rename_i hmove
    obtain ⟨found, hfound, hmay, -, rfl⟩ := Registry.transition_eq_ok.1 hmove
    have hsuspended : found.state = .suspended := by
      have hlive := (hwf.sound _ found hfound).live
      revert hmay hlive
      cases found.state <;> decide
    exact .told (s := s) sub (.resumed sub.id) .suspended .active
      (by rw [← hsuspended]; exact stateOf_of_lookup hfound ▸ hsuspended ▸ rfl) rfl (state_update hfound _)
      (fun k hk => lookup_update_of_ne _ hk) nofun
  · exact .refl s

theorem episodes_modify (hwf : s.registry.WF) (session : Session) (r : ModifyRequest) :
    s.Episodes (s.modify session r).2 := by
  rcases s.modify_cases session r with ⟨e, he⟩ | ⟨current, resolved, hcheck, -, he⟩
  · rw [he]
    exact .refl s
  · obtain ⟨hfound, -, hlive, -⟩ := checkModify_eq_ok hcheck
    have hid : current.id = r.id := hwf.keyed r.id current hfound
    have hmodified : s.Episodes (s.modified r resolved current) := by
      have hregistered := SubscriptionState.registered_of_live hlive
      refine .told (s := s) _ _ current.state current.state ?_ (if_pos hlive) ?_ ?_ ?_
      · show s.stateOf current.id = _
        rw [hid, stateOf_of_lookup hfound, hregistered]
      · show ((s.registry.update r.id _).lookup current.id).map _ = _
        rw [hid, state_update hfound, hregistered]
        rfl
      · intro k hk
        exact lookup_update_of_ne _ (hid ▸ hk)
      · intro hstart
        rw [hstart] at hlive
        cases hlive
    have hwf' : (s.modified r resolved current).registry.WF :=
      (wf_emit ..).2 (hwf.update r.id fun _ => ⟨rfl, rfl, fun h => ⟨h.live, h.reason⟩⟩)
    rw [he]
    simp only
    split
    · exact hmodified.trans (episodes_resume hwf' _)
    · exact hmodified

/-- Ending a subscription is one episode, or none when the commit is refused. -/
theorem episodes_terminate (hwf : s.registry.WF) {id : SubscriptionId} {sub : Subscription}
    (hfound : s.registry.lookup id = some sub) (reason : TerminationReason) :
    s.Episodes (s.terminate sub reason).2 := by
  obtain rfl : sub.id = id := hwf.keyed id sub hfound
  have hlive := (hwf.sound _ sub hfound).live
  rw [terminate_eq hfound, if_pos hlive]
  split
  · rw [Registry.reinstate_ended hfound (hwf.indexed _ sub hfound)]
    exact episodes_update (s := s) (f := Subscription.withoutReason) (fun _ => rfl) sub.id
  · exact .ended hfound hlive (.terminated sub.id reason) rfl (if_pos hlive)

/-- An establish is one episode of the id it gives, or none. -/
theorem episodes_establish (hfresh : s.registry.lookup s.registry.nextId = none)
    (hunheard : s.history s.registry.nextId = []) (session : Session) (r : EstablishRequest) :
    s.Episodes (s.establish session r).2 := by
  rcases s.establish_cases session r with ⟨e, he⟩ | ⟨request, revision, -, ⟨-, he⟩ | ⟨-, he⟩⟩
  · rw [he]
    exact .refl s
  · rw [he]
    refine .aside rfl (fun k => ?_) rfl
    let sub := Subscription.launched s.registry.nextId request
    show (((s.registry.enter sub).leave sub).lookup k).map _ = (s.registry.lookup k).map _
    rw [Registry.lookup_leave, Registry.lookup_enter]
    split
    · rename_i hk
      rw [← hk, show sub.id = s.registry.nextId from rfl, hfresh]
    · rfl
  · rw [he]
    let sub := Subscription.launched s.registry.nextId request
    refine .told (s := s) sub (.started sub.terms) .start .active ?_ rfl ?_
      (fun k hk => ?_) fun _ => hunheard
    · exact stateOf_eq_none.2 hfresh
    · show ((s.registry.enter sub).lookup sub.id).map _ = _
      rw [Registry.lookup_enter, if_pos rfl]
      rfl
    · show (s.registry.enter sub).lookup k = _
      rw [Registry.lookup_enter]
      exact if_neg (Ne.symm hk)

/-! ## Sessions, stop-times and filters -/

theorem episodes_complete (hwf : s.registry.WF) (id : SubscriptionId) : s.Episodes (s.complete id) := by
  cases hfound : s.registry.lookup id with
  | none =>
    rw [complete_of_lookup_none hfound]
    exact .aside rfl (fun _ => rfl) rfl
  | some sub =>
    obtain rfl : sub.id = id := hwf.keyed id sub hfound
    have hlive := (hwf.sound _ sub hfound).live
    rw [complete_eq hfound hlive]
    exact .ended hfound hlive (.completed sub.id) rfl (if_pos hlive)

theorem episodes_drop (hwf : s.registry.WF) (id : SubscriptionId) : s.Episodes (s.drop id) := by
  cases hfound : s.registry.lookup id with
  | none =>
    rw [drop_of_lookup_none hfound]
    exact .refl s
  | some sub =>
    obtain rfl : sub.id = id := hwf.keyed id sub hfound
    rw [drop_eq hfound]
    refine .dropped ?_ fun k hk => ?_
    · rw [Registry.lookup_leave, if_pos rfl]
    · rw [Registry.lookup_leave, if_neg (Ne.symm hk)]

theorem episodes_foldl_drop (hwf : s.registry.WF) (ids : List SubscriptionId) : s.Episodes (ids.foldl drop s) := by
  have hboth := foldl_drop_preserves (I := fun t => t.registry.WF ∧ s.Episodes t)
    (fun t id ht => ⟨wf_drop ht.1 id, ht.2.trans (episodes_drop ht.1 id)⟩) ids ⟨hwf, .refl s⟩
  exact hboth.2

theorem episodes_revalidateOne (hwf : s.registry.WF) (id : SubscriptionId) : s.Episodes (s.revalidateOne id) := by
  unfold revalidateOne
  split
  · exact .refl s
  · rename_i sub hfound
    split
    · rename_i resolved _
      have hresolved := episodes_update (s := s) (f := fun r => { r with resolved }) (fun _ => rfl) id
      have hwf' : (s.registry.update id fun r => { r with resolved }).WF :=
        hwf.update id fun _ => ⟨rfl, rfl, fun h => ⟨h.live, h.reason⟩⟩
      simp only
      split
      · exact hresolved.trans (episodes_resume hwf' sub)
      · exact hresolved
    · split
      · rename_i hactive
        split
        · rename_i hsuspend
          obtain ⟨_, -, -, -, rfl⟩ := Registry.transition_eq_ok.1 hsuspend
          refine .told (s := s) sub (.suspended id .filterUnavailable) .active .suspended ?_ rfl
            (state_update hfound _) (fun k hk => lookup_update_of_ne _ hk) nofun
          exact (stateOf_of_lookup hfound).trans (congrArg some hactive)
        · exact .refl s
      · exact .refl s

/-- A revalidation is a series of episodes, at most one for each subscription. -/
theorem episodes_revalidate (hwf : s.registry.WF) : s.Episodes s.revalidate := by
  have hfoldl : ∀ (ids : List SubscriptionId) (s : Service), s.registry.WF →
      s.Episodes (ids.foldl revalidateOne s) := by
    intro ids
    induction ids with
    | nil => exact fun s _ => .refl s
    | cons id ids ih => exact fun s hwf => (episodes_revalidateOne hwf id).trans (ih _ (wf_revalidateOne hwf id))
  exact hfoldl s.registry.ids s hwf

theorem episodes_of_revises (hwf : s.registry.WF) {a : Action} (ha : a.revises = true) : s.Episodes (s.step a) := by
  obtain ⟨streams, schema, -, hstep⟩ := s.step_of_revises ha
  have hset : s.Episodes { s with streams, schema } := .aside rfl (fun _ => rfl) rfl
  rcases hstep with he | he <;> rw [he]
  · exact hset
  · exact hset.trans (episodes_revalidate (by exact hwf))

end

/-! ## Actions -/

/-- What an action needs to start a subscription: an id that is nobody's and that nobody was told of. -/
structure Unheard (s : Service) (a : Action) : Prop extends Fresh s a where
  unheard : a.establishes = true → s.history s.registry.nextId = []

theorem unheard_of_not_establishes {s : Service} (hwf : s.registry.WF) {a : Action} (ha : a.establishes = false) :
    Unheard s a :=
  ⟨⟨hwf, fun he => Bool.noConfusion (ha.symm.trans he)⟩, fun he => Bool.noConfusion (ha.symm.trans he)⟩

/-- Every action is a series of episodes, or carries notifications. -/
theorem episodes_step {s : Service} {a : Action} (h : Unheard s a) (hcarries : a.carries = false) :
    s.Episodes (s.step a) := by
  have hwf := h.wf
  cases a with
  | request session r =>
    cases r with
    | establish r => exact episodes_establish (h.absent rfl) (h.unheard rfl) session r
    | modify r => exact episodes_modify hwf session r
    | delete id =>
      show s.Episodes (s.delete session id).2
      rcases s.delete_cases session id with ⟨e, he⟩ | ⟨sub, hfound, -, he⟩ <;> rw [he]
      · exact .refl s
      · exact episodes_terminate hwf hfound _
    | kill id =>
      show s.Episodes (s.kill id).2
      rcases s.kill_cases id with ⟨e, he⟩ | ⟨sub, hfound, he⟩ <;> rw [he]
      · exact .refl s
      · exact episodes_terminate hwf hfound _
  | closeSession session =>
    exact (episodes_foldl_drop hwf (s.registry.ofSession session)).trans (.aside rfl (fun _ => rfl) rfl)
  | expire id => exact episodes_complete hwf id
  | putFilter | removeFilter | setSchema | revalidate => exact episodes_of_revises hwf rfl
  | refuse refusing => exact .aside rfl (fun _ => rfl) rfl
  | wait now => exact .aside rfl (fun _ => rfl) rfl
  | _ => cases hcarries

/-- What only carries notifications neither tells a subscription of a state change nor changes its state. -/
theorem stateOf_step {s : Service} {a : Action} (h : a.carries = true) (id : SubscriptionId) :
    (s.step a).stateOf id = s.stateOf id := by
  rw [stateOf, lookup_of_atRest (s.atRest_step h), stateOf]

end Service

end YangSubscriptions
