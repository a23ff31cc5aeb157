import YangSubscriptions.Proofs.Delivery.Emission
import YangSubscriptions.Proofs.Service.Ending

/-!
# Flags along a run

The flag that the replay of a subscription was delivered is set by an attachment only, and the subscription is
registered then (`flagged_of_carries`). What neither carries notifications nor ends subscriptions leaves all flags as
they are. An action that ends a subscription takes its flag back, with one exception: it tells the subscription of the
end, and there is no listener to be told (`forgets_step`).
-/

namespace YangSubscriptions

/-- Does it tell subscriptions that it ends them? A session takes its own along without a word. -/
def Action.announces : Action → Bool
  | closeSession _ => false
  | _ => true

namespace Records

theorem Revised.isSome_lookup {r r' : Records} (h : r.Revised r') (id : SubscriptionId) :
    (r'.registry.lookup id).isSome = (r.registry.lookup id).isSome := by
  obtain ⟨g, -, rfl⟩ := h
  rw [Registry.lookup, Table.get?_map, Option.isSome_map]
  rfl

end Records

namespace Service

variable {s t : Service} {id : SubscriptionId}

/-- Was the replay of the subscription delivered, as far as the dispatcher knows? -/
def flagged (s : Service) (id : SubscriptionId) : Bool := s.dispatcher.replayed.contains id

theorem flagged_of_replayed (h : t.dispatcher.replayed = s.dispatcher.replayed) (id : SubscriptionId) :
    t.flagged id = s.flagged id := by
  rw [flagged, h, flagged]

theorem flagged_erase {k : SubscriptionId} (h : t.dispatcher.replayed = s.dispatcher.replayed.erase k) :
    t.flagged id = true ↔ s.flagged id = true ∧ k ≠ id := by
  rw [flagged, h, flagged, Table.contains, Table.contains, Table.get?_erase]
  split
  · rename_i hk
    constructor
    · intro hset
      cases hset
    · exact fun hboth => absurd hk hboth.2
  · rename_i hk
    exact ⟨fun hset => ⟨hset, hk⟩, fun hboth => hboth.1⟩

/-! ## A dispatcher that was stopped -/

theorem running_of_move (s : Service) {m : Move} (hm : m ≠ .stop) :
    (s.move m).dispatcher.running = s.dispatcher.running := by
  have hsame : (s.move m).wires = s.wires → (s.move m).dispatcher.running = s.dispatcher.running := fun he =>
    congrArg (fun w => w.2.2) he
  cases m with
  | publish n => rfl
  | dispatch stream =>
    show (s.dispatch stream).dispatcher.running = _
    cases hhead : (s.router.queue stream).head? with
    | none => rw [dispatch_of_head?_none hhead]
    | some n => exact congrArg (fun w => w.2.2) (wires_dispatch hhead)
  | stop => exact absurd rfl hm
  | _ => exact hsame (s.wires_move rfl)

/-- Does the dispatcher hold no flags once it was stopped? -/
def Emptied (s : Service) : Prop := s.dispatcher.running = false → ∀ id, s.flagged id = false

theorem Emptied.running (h : Emptied s) (hset : s.flagged id = true) : s.dispatcher.running = true := by
  cases hrunning : s.dispatcher.running with
  | true => rfl
  | false =>
    rw [h hrunning id] at hset
    cases hset

theorem Emptied.move (h : Emptied s) (m : Move) : Emptied (s.move m) := by
  intro hstopped id
  by_cases hm : m = .stop
  · subst hm
    show (s.stop.toOption.getD s).flagged id = false
    change (s.stop.toOption.getD s).dispatcher.running = false at hstopped
    unfold stop at hstopped ⊢
    split at hstopped
    · rename_i hrunning
      rw [if_pos hrunning]
      rfl
    · rename_i hrunning
      rw [if_neg hrunning]
      exact h (Bool.eq_false_iff.2 hrunning) id
  · rw [s.running_of_move hm] at hstopped
    have hunset := h hstopped id
    cases m with
    | attach k capacity replace =>
      show (s.attach k capacity replace).2.2.flagged id = false
      rcases s.attach_cases k capacity replace with he | ⟨hrunning, -⟩
      · rw [he]
        exact hunset
      · rw [hstopped] at hrunning
        cases hrunning
    | _ =>
      rcases s.replayed_move _ with he | ⟨_, _, _, hattach, -⟩ | ⟨_, -, he⟩ | ⟨-, he⟩
      · exact (flagged_of_replayed he id).trans hunset
      · cases hattach
      · rw [Bool.eq_false_iff]
        intro hset
        rw [(flagged_erase he).1 hset |>.1] at hunset
        cases hunset
      · rw [flagged, he]
        rfl

theorem Emptied.step (h : Emptied s) (a : Action) : Emptied (s.step a) := by
  by_cases ha : a = .closeFeeds
  · subst ha
    exact h
  · obtain ⟨ms, hms⟩ := moved_step s ha
    rw [← hms]
    exact moves_preserve (I := Emptied) (fun _ m hs => hs.move m) ms h

theorem Reachable.emptied (h : s.Reachable) : Emptied s :=
  h.preserves (I := Emptied) (fun _ _ _ => nofun) fun _ a hs => hs.step a

/-! ## Carrying notifications -/

/-- A replay sets the flag of a subscription that is registered. -/
theorem flagged_attach {k : SubscriptionId} {capacity : Nat} {replace : Bool}
    (h : (s.attach k capacity replace).2.2.flagged id = true) :
    s.flagged id = true ∨ (k = id ∧ (s.registry.lookup id).isSome = true) := by
  rcases s.attach_cases k capacity replace with he | ⟨-, he⟩
  · rw [he] at h
    exact .inl h
  · have hseat : ({ s with dispatcher := s.dispatcher.seat k capacity } : Service).flagged id = s.flagged id :=
      flagged_of_replayed (s.dispatcher.replayed_seat k capacity) id
    rw [he] at h
    rcases replay_cases { s with dispatcher := s.dispatcher.seat k capacity } k with ⟨-, hsame⟩ | ⟨sub, -, hfound, -⟩
    · rw [hsame, hseat] at h
      exact .inl h
    · rcases (replay_frame { s with dispatcher := s.dispatcher.seat k capacity } k).2 with hkept | hset
      · rw [flagged_of_replayed hkept, hseat] at h
        exact .inl h
      · by_cases hk : k = id
        · subst hk
          exact .inr ⟨rfl, by rw [show s.registry.lookup k = some sub from hfound]; rfl⟩
        · rw [flagged, hset, Table.contains, Table.get?_insert, if_neg hk] at h
          exact .inl (hseat ▸ h)

/-- What carries notifications sets no flag but that of a registered subscription, and it takes one back only by
letting go of the listener. -/
theorem flagged_of_carries (hemptied : Emptied s) {a : Action} (ha : a.carries = true)
    (h : (s.step a).flagged id = true) :
    (s.flagged id = true ∨ (s.registry.lookup id).isSome = true) ∧ a ≠ .detach id ∧ a ≠ .stop := by
  refine ⟨?_, ?_, ?_⟩
  · by_cases hfeeds : a = .closeFeeds
    · subst hfeeds
      exact .inl h
    · rw [s.step_of_carries ha hfeeds] at h
      cases hm : s.moveOf? a with
      | none =>
        rw [hm] at h
        exact .inl h
      | some m =>
        rw [hm] at h
        change (s.move m).flagged id = true at h
        rcases s.replayed_move m with he | ⟨k, capacity, replace, rfl, -⟩ | ⟨k, -, he⟩ | ⟨-, he⟩
        · rw [flagged_of_replayed he] at h
          exact .inl h
        · exact (flagged_attach h).imp_right fun hboth => hboth.2
        · exact .inl ((flagged_erase he).1 h).1
        · rw [flagged, he] at h
          cases h
  · rintro rfl
    change (s.detach id).2.flagged id = true at h
    unfold detach at h
    split at h
    · exact ((flagged_erase rfl).1 h).2 rfl
    · rename_i hstopped
      exact hstopped (hemptied.running h)
  · rintro rfl
    change (s.stop.toOption.getD s).flagged id = true at h
    unfold stop at h
    split at h
    · cases h
    · rename_i hstopped
      exact hstopped (hemptied.running h)

theorem flagged_step_of_carries (hemptied : Emptied s) {a : Action} (ha : a.carries = true) (h : s.flagged id = true)
    (hdetach : a ≠ .detach id) (hstop : a ≠ .stop) : (s.step a).flagged id = true := by
  by_cases hfeeds : a = .closeFeeds
  · subst hfeeds
    exact h
  · rw [s.step_of_carries ha hfeeds]
    cases hm : s.moveOf? a with
    | none => exact h
    | some m =>
      have hmove : m ≠ .stop ∧ m.forgets id = false := by
        cases a with
        | listen k capacity =>
          simp only [moveOf?] at hm
          split at hm
          · cases hm
            exact ⟨by simp, rfl⟩
          · cases hm
        | detach k =>
          cases hm
          exact ⟨by simp, decide_eq_false fun hk => hdetach (by rw [hk])⟩
        | stop => exact absurd rfl hstop
        | _ =>
          cases hm
          all_goals exact ⟨by simp, rfl⟩
      exact Replayed.move (fun _ => h) hmove.2 ((s.running_of_move hmove.1).trans (hemptied.running h))

/-! ## Telling and letting go -/

theorem replayed_emit_of_interim (sub : Subscription) {change : StateChange} (h : change.isTerminal = false) :
    (s.emit sub change).dispatcher.replayed = s.dispatcher.replayed := by
  rw [dispatcher_emit]
  simp only [h, Bool.false_eq_true, false_and, if_false]
  split
  · exact Dispatcher.replayed_tell ..
  · rfl

/-- The last thing that a subscription is told takes its flag back if there is a listener to be told. -/
theorem flagged_emit_of_terminal (hsound : s.dispatcher.Sound) (sub : Subscription) {change : StateChange}
    (h : change.isTerminal = true) :
    (s.emit sub change).flagged id = true ↔
      s.flagged id = true ∧ ¬ (change.id = id ∧ (s.dispatcher.attached.get? id).isSome = true) := by
  by_cases hlast : (s.dispatcher.attached.get? change.id).isSome = true
  · obtain ⟨l, hl⟩ := Option.isSome_iff_exists.1 hlast
    have herased : (s.emit sub change).dispatcher.replayed = s.dispatcher.replayed.erase change.id := by
      rw [dispatcher_emit, if_pos (running_of_attached hsound hl), if_pos ⟨h, hlast⟩, Dispatcher.replayed_forget,
        Dispatcher.replayed_tell]
    rw [flagged_erase herased]
    refine and_congr_right fun _ => not_congr ⟨fun hid => ⟨hid, hid ▸ hlast⟩, fun hboth => hboth.1⟩
  · have hkept : (s.emit sub change).dispatcher.replayed = s.dispatcher.replayed := by
      rw [dispatcher_emit]
      simp only [if_neg fun hboth : change.isTerminal = true ∧ s.dispatcher.attached.contains change.id = true =>
        hlast hboth.2]
      split
      · exact Dispatcher.replayed_tell ..
      · rfl
    rw [flagged_of_replayed hkept]
    exact ⟨fun hset => ⟨hset, fun hboth => hlast (hboth.1 ▸ hboth.2)⟩, fun hboth => hboth.1⟩

/-! ## What ends no subscription -/

theorem replayed_resume (s : Service) (sub : Subscription) :
    (s.resume sub).dispatcher.replayed = s.dispatcher.replayed := by
  unfold resume
  split
  · exact replayed_emit_of_interim sub rfl
  · rfl

theorem replayed_establish (s : Service) (session : Session) (r : EstablishRequest) :
    (s.establish session r).2.dispatcher.replayed = s.dispatcher.replayed := by
  rcases s.establish_cases session r with ⟨e, he⟩ | ⟨request, revision, -, ⟨-, he⟩ | ⟨-, he⟩⟩ <;> rw [he]
  · rfl
  · exact replayed_emit_of_interim _ rfl

theorem replayed_modify (s : Service) (session : Session) (r : ModifyRequest) :
    (s.modify session r).2.dispatcher.replayed = s.dispatcher.replayed := by
  rcases s.modify_cases session r with ⟨e, he⟩ | ⟨current, resolved, -, -, he⟩ <;> rw [he]
  have hmodified : (s.modified r resolved current).dispatcher.replayed = s.dispatcher.replayed :=
    replayed_emit_of_interim _ rfl
  simp only
  split
  · exact (replayed_resume ..).trans hmodified
  · exact hmodified

theorem replayed_revalidateOne (s : Service) (k : SubscriptionId) :
    (s.revalidateOne k).dispatcher.replayed = s.dispatcher.replayed := by
  unfold revalidateOne
  split
  · rfl
  · split
    · simp only
      split
      · exact replayed_resume ..
      · rfl
    · split
      · split
        · exact replayed_emit_of_interim _ rfl
        · rfl
      · rfl

theorem replayed_of_revises (s : Service) {a : Action} (ha : a.revises = true) :
    (s.step a).dispatcher.replayed = s.dispatcher.replayed := by
  obtain ⟨streams, schema, -, he | he⟩ := s.step_of_revises ha <;> rw [he]
  exact List.foldlRecOn (motive := fun t : Service => t.dispatcher.replayed = s.dispatcher.replayed) s.registry.ids
    revalidateOne rfl fun t ht k _ => (replayed_revalidateOne t k).trans ht

theorem replayed_of_not_ends (s : Service) {a : Action} (hcarries : a.carries = false) (hends : a.ends = false) :
    (s.step a).dispatcher.replayed = s.dispatcher.replayed := by
  cases a with
  | request session r =>
    cases r with
    | establish r => exact replayed_establish s session r
    | modify r => exact replayed_modify s session r
    | delete k => cases hends
    | kill k => cases hends
  | putFilter | removeFilter | setSchema | revalidate => exact replayed_of_revises s rfl
  | refuse | wait => rfl
  | expire | closeSession => cases hends
  | _ => cases hcarries

/-! ## What ends subscriptions -/

/-- Was the subscription registered, and is it no more? -/
def Removed (id : SubscriptionId) (s t : Service) : Prop :=
  (s.registry.lookup id).isSome = true ∧ t.registry.lookup id = none

theorem not_removed (h : (t.registry.lookup id).isSome = (s.registry.lookup id).isSome) : ¬ Removed id s t := by
  rintro ⟨hsome, hnone⟩
  rw [← h, hnone] at hsome
  cases hsome

/-- Whatever else is done, no subscription is removed. -/
theorem not_removed_of_not_ends {a : Action} (hfresh : Fresh s a) (hends : a.ends = false) :
    ¬ Removed id s (s.step a) := by
  cases a with
  | request session r =>
    cases r with
    | establish r =>
      have hne : (s.registry.lookup id).isSome = true → s.registry.nextId ≠ id := by
        rintro hsome rfl
        rw [hfresh.absent rfl] at hsome
        cases hsome
      rintro ⟨hsome, hnone⟩
      change (s.establish session r).2.registry.lookup id = none at hnone
      have hne := hne hsome
      rcases s.establish_cases session r with ⟨e, he⟩ | ⟨request, revision, -, ⟨-, he⟩ | ⟨-, he⟩⟩ <;> rw [he] at hnone
      · rw [hnone] at hsome
        cases hsome
      · change ((s.registry.enter _).leave (Subscription.launched s.registry.nextId request)).lookup id = none at hnone
        rw [Registry.lookup_leave, if_neg (by exact hne), Registry.lookup_enter, if_neg (by exact hne)] at hnone
        rw [hnone] at hsome
        cases hsome
      · rw [lookup_emit] at hnone
        change (s.registry.enter (Subscription.launched s.registry.nextId request)).lookup id = none at hnone
        rw [Registry.lookup_enter, if_neg (by exact hne)] at hnone
        rw [hnone] at hsome
        cases hsome
    | modify r =>
      refine not_removed ?_
      show ((s.modify session r).2.registry.lookup id).isSome = _
      rcases s.modify_cases session r with ⟨e, he⟩ | ⟨current, resolved, -, -, he⟩ <;> rw [he]
      have hmodified : ((s.modified r resolved current).registry.lookup id).isSome =
          (s.registry.lookup id).isSome := by
        rw [modified, lookup_emit]
        show ((s.registry.update r.id _).lookup id).isSome = _
        rw [Registry.lookup_update]
        split
        · rw [Option.isSome_map]
        · rfl
      simp only
      split
      · exact ((revised_resume ..).isSome_lookup id).trans hmodified
      · exact hmodified
    | delete k => cases hends
    | kill k => cases hends
  | putFilter | removeFilter | setSchema | revalidate =>
    exact not_removed ((revised_of_revises s rfl).isSome_lookup id)
  | refuse | wait => exact not_removed rfl
  | expire | closeSession => cases hends
  | _ => exact not_removed (by rw [lookup_of_atRest (s.atRest_step rfl)])

/-- Are the flags taken back of the subscriptions that were removed, but of none that was to be told and had no
listener? -/
def Forgets (told : Bool) (s t : Service) : Prop :=
  ∀ id, t.flagged id = true ↔
    s.flagged id = true ∧ ¬ (Removed id s t ∧ (told = true → (s.dispatcher.attached.get? id).isSome = true))

theorem Forgets.of_not_removed {told : Bool} (hreplayed : t.dispatcher.replayed = s.dispatcher.replayed)
    (h : ∀ id, ¬ Removed id s t) : Forgets told s t := by
  intro id
  rw [flagged_of_replayed hreplayed]
  exact ⟨fun hset => ⟨hset, fun hboth => h id hboth.1⟩, fun hboth => hboth.1⟩

/-- A subscription that is told of its end. -/
theorem forgets_ended (hsound : s.dispatcher.Sound) {sub : Subscription} (hfound : s.registry.lookup sub.id = some sub)
    {change : StateChange} (hterminal : change.isTerminal = true) (hid : change.id = sub.id) {datastore : Datastore}
    {deadlines : Table SubscriptionId Instant} :
    Forgets true s ({ s with registry := s.registry.leave sub, datastore, deadlines }.emit sub.ended change) := by
  intro id
  have hremoved : Removed id s ({ s with registry := s.registry.leave sub, datastore, deadlines }.emit sub.ended change) ↔
      sub.id = id := by
    rw [Removed, lookup_emit, Registry.lookup_leave]
    constructor
    · rintro ⟨hsome, hnone⟩
      by_contra hne
      rw [if_neg hne] at hnone
      rw [hnone] at hsome
      cases hsome
    · rintro rfl
      exact ⟨by rw [hfound]; rfl, if_pos rfl⟩
  rw [hremoved, flagged_emit_of_terminal (by exact hsound) _ hterminal, hid]
  simp [flagged]

theorem forgets_terminate (hwf : s.registry.WF) (hsound : s.dispatcher.Sound) {k : SubscriptionId} {sub : Subscription}
    (hfound : s.registry.lookup k = some sub) (reason : TerminationReason) :
    Forgets true s (s.terminate sub reason).2 := by
  obtain rfl : sub.id = k := hwf.keyed k sub hfound
  rw [terminate_eq hfound, if_pos (hwf.sound _ sub hfound).live]
  split
  · refine .of_not_removed rfl fun id => not_removed ?_
    show (((s.registry.leave sub).reinstate sub.ended sub.state).lookup id).isSome = _
    rw [Registry.reinstate_ended hfound (hwf.indexed _ sub hfound), Registry.lookup_update]
    split
    · rw [Option.isSome_map]
    · rfl
  · exact forgets_ended hsound hfound rfl rfl

theorem forgets_complete (hwf : s.registry.WF) (hsound : s.dispatcher.Sound) (k : SubscriptionId) :
    Forgets true s (s.complete k) := by
  cases hfound : s.registry.lookup k with
  | none =>
    rw [complete_of_lookup_none hfound]
    exact .of_not_removed rfl fun _ => not_removed rfl
  | some sub =>
    obtain rfl : sub.id = k := hwf.keyed k sub hfound
    rw [complete_eq hfound (hwf.sound _ sub hfound).live]
    exact forgets_ended hsound hfound rfl rfl

theorem Emptied.drop (h : Emptied s) (k : SubscriptionId) : Emptied (s.drop k) := by
  cases hfound : s.registry.lookup k with
  | none => rwa [drop_of_lookup_none hfound]
  | some sub =>
    rw [drop_eq hfound]
    exact Emptied.move (s := { s with registry := s.registry.leave sub, deadlines := s.deadlines.erase k })
      (by exact h) (.detach k)

theorem flagged_foldl_drop (hwf : s.registry.WF) (hemptied : Emptied s) (ids : List SubscriptionId) :
    (ids.foldl drop s).flagged id = true ↔
      s.flagged id = true ∧ ¬ (id ∈ ids ∧ (s.registry.lookup id).isSome = true) := by
  induction ids generalizing s with
  | nil => simp
  | cons k ids ih =>
    have hdropped : (s.drop k).flagged id = true ↔
        s.flagged id = true ∧ ¬ (k = id ∧ (s.registry.lookup id).isSome = true) := by
      cases hfound : s.registry.lookup k with
      | none =>
        rw [drop_of_lookup_none hfound]
        refine ⟨fun hset => ⟨hset, ?_⟩, fun hboth => hboth.1⟩
        rintro ⟨rfl, hsome⟩
        rw [hfound] at hsome
        cases hsome
      | some sub =>
        rw [drop_eq hfound]
        unfold detach
        split
        · rw [flagged_erase (s := s) (k := k) rfl]
          refine and_congr_right fun _ => not_congr ⟨?_, fun hboth => hboth.1⟩
          rintro rfl
          exact ⟨rfl, by rw [hfound]; rfl⟩
        · rename_i hstopped
          have hunset : s.flagged id = false := hemptied (Bool.eq_false_iff.2 hstopped) id
          simp [flagged] at hunset ⊢
          simp [hunset]
    rw [List.foldl_cons, ih (wf_drop hwf k) (hemptied.drop k), hdropped, lookup_drop hwf]
    by_cases hk : k = id
    · simp [hk]
    · simp [hk, Ne.symm hk]

theorem forgets_closeSession (hwf : s.registry.WF) (hemptied : Emptied s) (session : SessionId) :
    Forgets false s (s.closeSession session).2 := by
  intro id
  have hflagged : (s.closeSession session).2.flagged id = ((s.registry.ofSession session).foldl drop s).flagged id := rfl
  rw [hflagged, flagged_foldl_drop hwf hemptied, Removed, lookup_closeSession hwf]
  by_cases hid : id ∈ s.registry.ofSession session
  · simp [hid]
  · cases s.registry.lookup id <;> simp [hid]

theorem forgets_of_ends {a : Action} (hwf : s.registry.WF) (hsound : s.dispatcher.Sound) (hemptied : Emptied s)
    (hends : a.ends = true) : Forgets a.announces s (s.step a) := by
  cases a with
  | request session r =>
    cases r with
    | delete k =>
      show Forgets true s (s.delete session k).2
      rcases s.delete_cases session k with ⟨e, he⟩ | ⟨sub, hfound, -, he⟩ <;> rw [he]
      · exact .of_not_removed rfl fun _ => not_removed rfl
      · exact forgets_terminate hwf hsound hfound _
    | kill k =>
      show Forgets true s (s.kill k).2
      rcases s.kill_cases k with ⟨e, he⟩ | ⟨sub, hfound, he⟩ <;> rw [he]
      · exact .of_not_removed rfl fun _ => not_removed rfl
      · exact forgets_terminate hwf hsound hfound _
    | _ => cases hends
  | expire k => exact forgets_complete hwf hsound k
  | closeSession session => exact forgets_closeSession hwf hemptied session
  | _ => cases hends

/-- What does not carry notifications takes back the flags of the subscriptions that it ends and of no others, and
the flag of one that is told of its end only if it has a listener. -/
theorem forgets_step {a : Action} (hfresh : Fresh s a) (hsound : s.dispatcher.Sound) (hemptied : Emptied s)
    (hcarries : a.carries = false) : Forgets a.announces s (s.step a) := by
  cases hends : a.ends with
  | false =>
    exact .of_not_removed (s.replayed_of_not_ends hcarries hends) fun _ => not_removed_of_not_ends hfresh hends
  | true => exact forgets_of_ends hfresh.wf hsound hemptied hends

/-- It sets no flag, and leaves the flag of a subscription that stays. -/
theorem flagged_of_not_carries {a : Action} (hwf : s.registry.WF) (hsound : s.dispatcher.Sound) (hemptied : Emptied s)
    (hcarries : a.carries = false) :
    ((s.step a).flagged id = true → s.flagged id = true) ∧
      (s.flagged id = true → ¬ Removed id s (s.step a) → (s.step a).flagged id = true) := by
  cases hends : a.ends with
  | false =>
    have hsame := flagged_of_replayed (s.replayed_of_not_ends hcarries hends) id
    exact ⟨fun hset => hsame ▸ hset, fun hset _ => hsame.trans hset⟩
  | true =>
    have hforgets := forgets_of_ends hwf hsound hemptied hends id
    exact ⟨fun hset => (hforgets.1 hset).1, fun hset hstays => hforgets.2 ⟨hset, fun hboth => hstays hboth.1⟩⟩

end Service

end YangSubscriptions
