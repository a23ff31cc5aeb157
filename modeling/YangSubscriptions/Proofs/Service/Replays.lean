import YangSubscriptions.Proofs.Service.Flags

/-!
# What a replay evaluates

A replay sets the flag of its subscription, offers what the log of the stream holds between the times of the
subscription, and tells that this is completed. An active subscription has every one of these notifications evaluated.
A suspended one is affected by none of them, but it may be attached, and the replay runs all the same: the listener
is told that it is completed, and the flag is set, so that nothing replays them once the subscription is active again
(`replay_evaluates_if_active`, `suspended_replay_lost`).
-/

namespace YangSubscriptions

/-- Does it attach a listener of that capacity to the subscription? -/
def Action.Attaches (id : SubscriptionId) (capacity : Nat) (a : Action) : Prop :=
  a = .listen id capacity ∨ ∃ replace, a = .attach id capacity replace

namespace Service

variable {s t : Service} {id : SubscriptionId}

/-! ## Verdicts and tallies -/

/-- What is on the stream of a subscription affects it just if it is active. -/
theorem verdict_eq_unaffected {sub : Subscription} (hfound : s.registry.lookup sub.id = some sub) (n : Notification) :
    s.verdict sub.id sub.stream n = .unaffected ↔ sub.state ≠ .active := by
  unfold verdict
  rw [hfound]
  show sub.verdict s.schema sub.stream n = .unaffected ↔ _
  unfold Subscription.verdict
  by_cases hactive : sub.state = .active
  · rw [if_neg (by simp [hactive])]
    refine ⟨fun h => ?_, fun h => absurd hactive h⟩
    split at h
    · cases h
    · split at h <;> cases h
  · rw [if_pos (.inr hactive)]
    exact ⟨fun _ => hactive, fun _ => rfl⟩

theorem excluded_give (s : Service) (id : SubscriptionId) (m : Message) :
    ((s.give id m).2.registry.tally id).excluded = (s.registry.tally id).excluded := by
  unfold give
  split
  · show ((s.registry.countSent id).tally id).excluded = _
    rw [Registry.tally_countSent, if_pos rfl]
  · rfl

theorem excluded_deliver (s : Service) (change : StateChange) (encoding : Encoding) :
    ((s.deliver change encoding).2.registry.tally change.id).excluded = (s.registry.tally change.id).excluded := by
  obtain ⟨d, registry, he, hregistry | hregistry⟩ := s.deliver_frame change encoding
  · rw [he, hregistry]
  · rw [he, hregistry, Registry.tally_countSent, if_pos rfl]

/-- Offers count what the filter rejects. -/
theorem excluded_foldl_offer (s : Service) (id : SubscriptionId) (stream : String) (events : List Notification) :
    ((events.foldl (fun s n => s.offer id stream n) s).registry.tally id).excluded =
      (s.registry.tally id).excluded + .ofNat (events.countP fun n => s.verdict id stream n = .excluded) := by
  induction events generalizing s with
  | nil => exact (UInt64.add_zero _).symm
  | cons n events ih =>
    have hverdict : ∀ n', (s.offer id stream n).verdict id stream n' = s.verdict id stream n' := by
      intro n'
      rw [← verdict_bare, bare_offer, verdict_bare]
    rw [List.foldl_cons, ih]
    simp only [hverdict]
    rw [List.countP_cons]
    unfold offer
    cases hv : s.verdict id stream n with
    | excluded =>
      show ((s.registry.countExcluded id).tally id).excluded + _ = _
      rw [Registry.tally_countExcluded, if_pos rfl, if_pos (decide_eq_true rfl), UInt64.ofNat_add,
        UInt64.add_comm (UInt64.ofNat _), ← UInt64.add_assoc]
      rfl
    | message m =>
      show ((s.give id m).2.registry.tally id).excluded + _ = _
      rw [excluded_give]
      simp
    | _ => simp

/-- A replay goes through all that the log holds between the times of the subscription. -/
theorem mem_replay {stream : String} {log : ReplayLog} (hlog : s.streams.log? stream = some log) {n : Notification}
    (hn : n ∈ log.notifications) {since : Instant} (hsince : since ≤ n.time) {stopTime : Option Instant}
    (hstop : ∀ stop, stopTime = some stop → n.time ≤ stop) : n ∈ s.streams.replay stream since stopTime := by
  rw [Streams.replay, hlog]
  refine List.mem_filter.2 ⟨hn, Bool.and_eq_true_iff.2 ⟨hsince, ?_⟩⟩
  cases stopTime with
  | none => rfl
  | some stop => exact hstop stop rfl

/-! ## Replays -/

/-- How an action leaves the service that attached a listener of that capacity to a subscription and replayed what it
had asked for. -/
structure Replays (s : Service) (sub : Subscription) (since : Instant) (capacity : Nat) (t : Service) : Prop where
  recorded : s.registry.lookup sub.id = some sub
  asked : sub.replayStartTime = some since
  /-- The new listener accepts what the verdicts bring and that the replay is completed, as far as it has room. -/
  received : ∃ completed,
    Message.encode sub.id sub.encoding s.now (StateChange.replayCompleted sub.id).toNode s.schema = .ok completed ∧
      t.dispatcher.accepted s.dispatcher.listeners.size =
        (((s.streams.replay sub.stream since sub.stopTime).filterMap fun n =>
          (s.verdict sub.id sub.stream n).message?) ++ [completed]).take capacity
  /-- What the filter rejects is counted. -/
  excluded : (t.registry.tally sub.id).excluded = (s.registry.tally sub.id).excluded +
    .ofNat ((s.streams.replay sub.stream since sub.stopTime).countP fun n =>
      s.verdict sub.id sub.stream n = .excluded)

/-- An attachment that sets the flag replays. -/
theorem replays_attach (hkeyed : s.registry.Keyed) (hsound : s.dispatcher.Sound) {capacity : Nat} {replace : Bool}
    (hunset : s.flagged id = false) (hset : (s.attach id capacity replace).2.2.flagged id = true) :
    ∃ sub since, sub.id = id ∧ Replays s sub since capacity (s.attach id capacity replace).2.2 := by
  rcases s.attach_cases id capacity replace with he | ⟨hrunning, he⟩
  · rw [he] at hset
    exact absurd (hunset.symm.trans hset) Bool.false_ne_true
  · let u : Service := { s with dispatcher := s.dispatcher.seat id capacity }
    have hunset' : u.flagged id = false := (flagged_of_replayed (s.dispatcher.replayed_seat id capacity) id).trans hunset
    have hkept : u.replay id ≠ u := by
      intro hkept
      rw [he, show ({ s with dispatcher := s.dispatcher.seat id capacity } : Service).replay id = u from hkept,
        hunset'] at hset
      cases hset
    cases hfound : s.registry.lookup id with
    | none =>
      refine absurd ?_ hkept
      simp only [replay, show u.registry.lookup id = none from hfound]
    | some sub =>
      obtain rfl : sub.id = id := hkeyed id sub hfound
      cases hasked : sub.replayStartTime with
      | none =>
        refine absurd ?_ hkept
        simp only [replay, show u.registry.lookup sub.id = some sub from hfound, hasked]
      | some since =>
        have hnew : u.dispatcher.replayed.get? sub.id = none := by
          rw [← Option.not_isSome_iff_eq_none]
          exact ne_true_of_eq_false hunset'
        have hattached : u.dispatcher.attached.get? sub.id = some s.dispatcher.listeners.size := by
          rw [Dispatcher.get?_attached_seat, if_pos rfl]
        obtain ⟨⟨completed, hcompleted, hheld⟩, -⟩ :=
          listener?_replay (s := u) hfound hasked hnew hattached (hsound.listener?_seat sub.id capacity)
        refine ⟨sub, since, rfl, hfound, hasked, ⟨completed, hcompleted, ?_⟩, ?_⟩
        · rw [he, Dispatcher.accepted, hheld]
          rfl
        · rw [he, replay_eq (s := u) hfound hasked hnew]
          refine (excluded_deliver _ (.replayCompleted sub.id) _).trans ?_
          exact excluded_foldl_offer _ sub.id sub.stream _

/-- Only attaching a listener to a subscription sets its flag. -/
theorem replays_step (hwf : s.registry.WF) (hsound : s.dispatcher.Sound) (hemptied : Emptied s) {a : Action}
    (hunset : s.flagged id = false) (hset : (s.step a).flagged id = true) :
    ∃ sub since capacity, a.Attaches id capacity ∧ sub.id = id ∧ Replays s sub since capacity (s.step a) := by
  have hnot : ¬ s.flagged id = true := ne_true_of_eq_false hunset
  have hcarries : a.carries = true := by
    rw [← Bool.not_eq_false]
    exact fun hcarries => hnot ((flagged_of_not_carries hwf hsound hemptied hcarries).1 hset)
  by_cases hfeeds : a = .closeFeeds
  · subst hfeeds
    exact absurd hset hnot
  · rw [s.step_of_carries hcarries hfeeds] at hset ⊢
    cases hm : s.moveOf? a with
    | none =>
      rw [hm] at hset
      exact absurd hset hnot
    | some m =>
      rw [hm] at hset
      change (s.move m).flagged id = true at hset
      show ∃ sub since capacity, a.Attaches id capacity ∧ sub.id = id ∧ Replays s sub since capacity (s.move m)
      rcases s.replayed_move m with he | ⟨k, capacity, replace, rfl, he⟩ | ⟨k, -, he⟩ | ⟨-, he⟩
      · exact absurd (flagged_of_replayed he id ▸ hset) hnot
      · obtain rfl : k = id := by
          by_contra hk
          rw [flagged, he, Table.contains, Table.get?_insert, if_neg hk] at hset
          exact hnot hset
        have hattaches : a.Attaches k capacity := by
          cases a with
          | listen k' capacity' =>
            simp only [moveOf?] at hm
            split at hm
            · cases hm
              exact .inl rfl
            · cases hm
          | attach k' capacity' replace' =>
            cases hm
            exact .inr ⟨replace, rfl⟩
          | _ => cases hm
        obtain ⟨sub, since, hid, hreplays⟩ := replays_attach hwf.keyed hsound hunset hset
        exact ⟨sub, since, capacity, hattaches, hid, hreplays⟩
      · exact absurd ((flagged_erase he).1 hset).1 hnot
      · rw [flagged, he] at hset
        cases hset

/-! ## Once -/

/-- Does the action leave the subscription registered, and its flag too? -/
def Retains (id : SubscriptionId) (s : Service) (a : Action) : Prop :=
  a ≠ .detach id ∧ a ≠ .stop ∧ ¬ Removed id s (s.step a)

/-- As long as the subscription is registered the flag stays, unless its listener is detached. -/
theorem flagged_run (hwf : s.registry.WF) (hsound : s.dispatcher.Sound) (hemptied : Emptied s)
    (hset : s.flagged id = true) {as : List Action} (has : Throughout (Retains id) s as) :
    (s.run as).flagged id = true := by
  induction as generalizing s with
  | nil => exact hset
  | cons a as ih =>
    obtain ⟨⟨hdetach, hstop, hstays⟩, has⟩ := has
    refine ih (wf_step hwf a) (sound_step hsound a) (hemptied.step a) ?_ has
    cases hcarries : a.carries with
    | true => exact flagged_step_of_carries hemptied hcarries hset hdetach hstop
    | false => exact (flagged_of_not_carries hwf hsound hemptied hcarries).2 hset hstays

/-- An attachment brings a subscription with a flag nothing. -/
theorem accepted_attaches (hsound : s.dispatcher.Sound) (hset : s.flagged id = true) {a : Action} {capacity : Nat}
    (ha : a.Attaches id capacity) (l : ListenerId) :
    (s.step a).dispatcher.accepted l = s.dispatcher.accepted l := by
  have hreplayed : Replayed id s := fun _ => hset
  rcases ha with rfl | ⟨replace, rfl⟩
  · rw [s.step_of_carries (a := .listen id capacity) rfl (by simp), moveOf?]
    split
    · exact hreplayed.accepted_attach hsound capacity false l
    · rfl
  · exact hreplayed.accepted_attach hsound capacity replace l

/-- After every run, an action that sets the flag of a subscription attached a listener to it and replayed what it had
asked for. If the subscription was active, whatever the log of its stream held between its times was evaluated: it had
a message, was excluded, or could not be encoded. If it was suspended nothing was: nothing was excluded, and all that
the listener accepted, if it had any room, is that the replay is completed. Either way nothing is replayed to the
subscription any more while it stays registered and is not detached, however often it is attached. -/
theorem replay_evaluates_if_active (now : Instant) (schema : Schema) (configs : List StreamConfig) (as : List Action)
    (a : Action) (id : SubscriptionId) (hunset : ((start now schema configs).run as).flagged id = false)
    (hset : (((start now schema configs).run as).step a).flagged id = true) :
    let s := (start now schema configs).run as
    let t := s.step a
    ∃ sub since capacity, a.Attaches id capacity ∧ sub.id = id ∧ Replays s sub since capacity t ∧
      ((sub.state = .active ∧ ∀ log n, s.streams.log? sub.stream = some log → n ∈ log.notifications →
          since ≤ n.time → (∀ stop, sub.stopTime = some stop → n.time ≤ stop) →
          n ∈ s.streams.replay sub.stream since sub.stopTime ∧ s.verdict id sub.stream n ≠ .unaffected) ∨
        (sub.state = .suspended ∧ (∀ n, s.verdict id sub.stream n = .unaffected) ∧
          (t.registry.tally id).excluded = (s.registry.tally id).excluded ∧
          ∃ completed, Message.encode id sub.encoding s.now (StateChange.replayCompleted id).toNode s.schema =
            .ok completed ∧ t.dispatcher.accepted s.dispatcher.listeners.size = [completed].take capacity)) ∧
      ∀ bs, Throughout (Retains id) t bs → ∀ b capacity, b.Attaches id capacity →
        ∀ l, ((t.run bs).step b).dispatcher.accepted l = (t.run bs).dispatcher.accepted l := by
  intro s t
  have hs : s.Reachable := ⟨now, schema, configs, as, rfl⟩
  obtain ⟨sub, since, capacity, hattaches, rfl, hreplays⟩ := replays_step hs.wf hs.sound hs.emptied hunset hset
  refine ⟨sub, since, capacity, hattaches, rfl, hreplays, ?_, fun bs hbs b capacity hb l => ?_⟩
  · have hverdict := verdict_eq_unaffected hreplays.recorded
    by_cases hactive : sub.state = .active
    · exact .inl ⟨hactive, fun _ n hlog hn hsince hstop =>
        ⟨mem_replay hlog hn hsince hstop, fun h => (hverdict n).1 h hactive⟩⟩
    · have hsuspended : sub.state = .suspended := by
        have hlive := (hs.wf.sound _ sub hreplays.recorded).live
        revert hlive hactive
        cases sub.state <;> simp [SubscriptionState.isLive]
      have hunaffected : ∀ n, s.verdict sub.id sub.stream n = .unaffected := fun n => (hverdict n).2 hactive
      obtain ⟨completed, hcompleted, haccepted⟩ := hreplays.received
      have hnone : ((s.streams.replay sub.stream since sub.stopTime).countP fun n =>
          s.verdict sub.id sub.stream n = .excluded) = 0 := List.countP_eq_zero.2 fun n _ => by simp [hunaffected]
      have hexcluded := hreplays.excluded
      rw [hnone] at hexcluded
      simp only [hunaffected, Verdict.message?, List.filterMap_none, List.nil_append] at haccepted
      exact .inr ⟨hsuspended, hunaffected, hexcluded.trans (UInt64.add_zero _), completed, hcompleted, haccepted⟩
  · have hrun := run_preserves (I := fun u => u.dispatcher.Sound) (fun _ a hu => sound_step hu a) bs
      (sound_step hs.sound a)
    exact accepted_attaches hrun (flagged_run (wf_step hs.wf a) (sound_step hs.sound a) (hs.emptied.step a) hset hbs) hb l

/-- A session asks for alarms from the start on, and one is in the log. -/
def alarmInLog : List Action :=
  [.request ⟨1, "", none⟩ (.establish ⟨some "alarms", none, none, none, some ⟨0, 0⟩⟩), .publish alarm,
    .dispatch "alarms"]

/-- It listens while its subscription is active; it listens again after its receiver went away and was swept out. -/
theorem replay_evaluates_if_active_alarm :
    let s := (start ⟨0, 0⟩ .empty [⟨"alarms", none, 4⟩]).run alarmInLog
    let t := s.step (.listen firstSubscriptionId 8)
    let again := t.run [.hangUp 0, .publish alarm, .dispatch "alarms"]
    s.flagged firstSubscriptionId = false ∧ t.flagged firstSubscriptionId = true ∧
      s.verdict firstSubscriptionId "alarms" alarm ≠ .unaffected ∧
      (again.step (.listen firstSubscriptionId 8)).dispatcher.accepted 1 = again.dispatcher.accepted 1 := by
  intro s t again
  have hunset : s.flagged firstSubscriptionId = false := by decide +kernel
  have hset : t.flagged firstSubscriptionId = true := by decide +kernel
  let known : Subscription :=
    ⟨firstSubscriptionId, "alarms", none, .all, .json, none, some ⟨0, 0⟩, ⟨1, "", none⟩, .active, none⟩
  have hknown : s.registry.lookup firstSubscriptionId = some known := by rfl
  obtain ⟨sub, since, capacity, -, hid, hreplays, hevaluated, honce⟩ :=
    replay_evaluates_if_active ⟨0, 0⟩ .empty [⟨"alarms", none, 4⟩] alarmInLog (.listen firstSubscriptionId 8)
      firstSubscriptionId hunset hset
  have hrecorded := hreplays.recorded
  rw [hid] at hrecorded
  obtain rfl : known = sub := Option.some.inj (hknown.symm.trans hrecorded)
  obtain rfl : ⟨0, 0⟩ = since := Option.some.inj hreplays.asked
  refine ⟨hunset, hset, ?_, ?_⟩
  · rcases hevaluated with ⟨-, hevaluated⟩ | ⟨hsuspended, -⟩
    · exact (hevaluated ⟨4, ⟨0, 0⟩, [alarm]⟩ alarm rfl List.mem_cons_self (by decide) nofun).2
    · cases hsuspended
  · refine honce [.hangUp 0, .publish alarm, .dispatch "alarms"] ?_ _ 8 (.inl rfl) 1
    have hstays : ∀ u : Service, (u.registry.lookup firstSubscriptionId).isSome = true →
        ∀ w, ¬ Removed firstSubscriptionId w u := by
      rintro u hsome w ⟨-, hnone⟩
      rw [hnone] at hsome
      cases hsome
    exact ⟨⟨nofun, nofun, hstays _ (by decide +kernel) _⟩, ⟨nofun, nofun, hstays _ (by decide +kernel) _⟩,
      ⟨nofun, nofun, hstays _ (by decide +kernel) _⟩, trivial⟩

/-- A session asks for alarms from the start on through a filter that is removed, listens, and the filter comes back. -/
def suspendedWhenAttached : List Action :=
  [.publish alarm, .dispatch "alarms", .putFilter "every" (.subtree ⟨[]⟩),
    .request ⟨1, "", none⟩ (.establish ⟨some "alarms", some (.named "every"), none, none, some ⟨0, 0⟩⟩),
    .removeFilter "every", .listen firstSubscriptionId 8, .putFilter "every" (.subtree ⟨[]⟩)]

/-- The alarm is in the log after the start of the replay, and the listener was told that the replay is completed and
that the subscription is active again; but the alarm was neither given to it nor excluded. -/
theorem suspended_replay_lost :
    let id := firstSubscriptionId
    let s := (start ⟨0, 0⟩ .empty [⟨"alarms", none, 4⟩]).run suspendedWhenAttached
    let told (change : StateChange) : Message := ⟨id, .json, (Notification.envelope ⟨0, 0⟩ change.toNode).render⟩
    alarm ∈ s.streams.replay "alarms" ⟨0, 0⟩ none ∧ s.stateOf id = some .active ∧ s.flagged id = true ∧
      s.dispatcher.accepted 0 = [told (.replayCompleted id), told (.resumed id)] ∧ s.registry.tally id = ⟨2, 0⟩ := by
  intro id s told
  refine ⟨?_, ?_, ?_, ?_, ?_⟩
  · exact List.mem_cons_self
  all_goals decide +kernel

end Service

end YangSubscriptions
