import YangSubscriptions.Proofs.Delivery.Steps
import YangSubscriptions.Proofs.Delivery.Tallies

/-!
# What telling a subscription changes

A state change is written down, given to the listener of its subscription and counted there; after the last one
the listener is let go. Nothing else changes: another subscription keeps its listener with all that is in it, its
tally and its flag. That rests on listeners being attached to one subscription each (`Dispatcher.Sound`), which
holds after every run.
-/

namespace YangSubscriptions

namespace Dispatcher

theorem listener?_tell_of_ne {d : Dispatcher} {id : SubscriptionId} {l : ListenerId} (h : d.attached.get? id ≠ some l)
    (message? : Option Message) : (d.tell id message?).listener? l = d.listener? l := by
  cases message? with
  | none => rfl
  | some m => exact listener?_give_of_ne h m

/-- Dispatchers in which a subscription has the same listener, with the same messages, and the same flag. -/
structure Same (id : SubscriptionId) (d d' : Dispatcher) : Prop where
  attached : d'.attached.get? id = d.attached.get? id
  listener : d'.attachedTo? id = d.attachedTo? id
  replayed : d'.replayed.get? id = d.replayed.get? id

namespace Same

theorem refl (id : SubscriptionId) (d : Dispatcher) : Same id d d := ⟨rfl, rfl, rfl⟩

theorem trans {id : SubscriptionId} {d d' d'' : Dispatcher} (h : Same id d d') (h' : Same id d' d'') : Same id d d'' :=
  ⟨h'.attached.trans h.attached, h'.listener.trans h.listener, h'.replayed.trans h.replayed⟩

/-- Where the attached listener is the same, it is enough that it is not changed. -/
theorem of_listener {id : SubscriptionId} {d d' : Dispatcher} (hattached : d'.attached.get? id = d.attached.get? id)
    (hlistener : ∀ l, d.attached.get? id = some l → d'.listener? l = d.listener? l)
    (hreplayed : d'.replayed.get? id = d.replayed.get? id) : Same id d d' := by
  refine ⟨hattached, ?_, hreplayed⟩
  unfold attachedTo?
  rw [hattached]
  exact Option.bind_congr hlistener

end Same

section
variable {d : Dispatcher} (h : d.Sound) {id k : SubscriptionId} (hne : k ≠ id)
include h hne

theorem Sound.same_tell (message? : Option Message) : Same id d (d.tell k message?) := by
  refine .of_listener (by rw [attached_tell]) (fun l hl => ?_) (by rw [replayed_tell])
  exact listener?_tell_of_ne (fun hk => hne (h.exclusive k id l hk hl)) message?

theorem Sound.same_forget : Same id d (d.forget k) := by
  refine .of_listener ?_ (fun l hl => ?_) ?_
  · show (d.release k).attached.get? id = _
    rw [get?_attached_release, if_neg hne]
  · exact listener?_release_of_ne fun hk => hne (h.exclusive k id l hk hl)
  · rw [replayed_forget, Table.get?_erase, if_neg hne]

end

theorem Sound.tell {d : Dispatcher} (h : d.Sound) (id : SubscriptionId) (message? : Option Message) :
    (d.tell id message?).Sound := by
  cases message? with
  | none => exact h
  | some m => exact h.give id m

end Dispatcher

namespace Service

/-! ## Soundness along runs -/

theorem Moved.sound {s t : Service} (h : s.Moved t) (hsound : s.dispatcher.Sound) : t.dispatcher.Sound := by
  obtain ⟨ms, rfl⟩ := h
  exact moves_preserve (I := fun s => s.dispatcher.Sound) (fun _ m hs => sound_move hs m) ms hsound

/-- The table of listeners stays sound in every step. -/
theorem sound_step {s : Service} (h : s.dispatcher.Sound) (a : Action) : (s.step a).dispatcher.Sound := by
  by_cases ha : a = .closeFeeds
  · subst ha
    exact h
  · exact (moved_step s ha).sound h

/-- It is sound in every state that a service can reach. -/
theorem Reachable.sound {s : Service} (h : s.Reachable) : s.dispatcher.Sound :=
  h.preserves (I := fun s => s.dispatcher.Sound) (fun _ _ _ => Dispatcher.sound_empty) fun _ a hs => sound_step hs a

theorem sound_emit {s : Service} (h : s.dispatcher.Sound) (sub : Subscription) (change : StateChange) :
    (s.emit sub change).dispatcher.Sound := (Moved.emit s sub change).sound h

theorem sound_detach {s : Service} (h : s.dispatcher.Sound) (id : SubscriptionId) : (s.detach id).2.dispatcher.Sound :=
  sound_move h (.detach id)

/-! ## Deliveries -/

/-- A delivery changes listeners, and the tally of its subscription if it is accepted. -/
theorem deliver_frame (s : Service) (change : StateChange) (encoding : Encoding) :
    ∃ d registry, (s.deliver change encoding).2 = { s with dispatcher := d, registry } ∧
      (registry = s.registry ∨ registry = s.registry.countSent change.id) := by
  have hgive : ∀ m, ∃ d registry, (s.give change.id m).2 = { s with dispatcher := d, registry } ∧
      (registry = s.registry ∨ registry = s.registry.countSent change.id) := by
    intro m
    unfold give
    split
    · exact ⟨_, _, rfl, .inr rfl⟩
    · exact ⟨s.dispatcher, s.registry, rfl, .inl rfl⟩
  have hforget : ∀ t : Service, (∃ d registry, t = { s with dispatcher := d, registry } ∧
      (registry = s.registry ∨ registry = s.registry.countSent change.id)) →
      ∃ d registry,
        (if change.isTerminal then { t with dispatcher := t.dispatcher.forget change.id } else t) =
          { s with dispatcher := d, registry } ∧
        (registry = s.registry ∨ registry = s.registry.countSent change.id) := by
    rintro t ⟨d, registry, rfl, hregistry⟩
    split
    · exact ⟨_, registry, rfl, hregistry⟩
    · exact ⟨d, registry, rfl, hregistry⟩
  have hsame : ∃ d registry, s = { s with dispatcher := d, registry } ∧
      (registry = s.registry ∨ registry = s.registry.countSent change.id) :=
    ⟨s.dispatcher, s.registry, rfl, .inl rfl⟩
  unfold deliver
  split
  · simp only
    cases Message.encode change.id encoding s.now change.toNode s.schema with
    | ok m => exact hforget _ (hgive m)
    | error e => exact hforget s hsame
  · exact hsame

theorem journal_deliver (s : Service) (change : StateChange) (encoding : Encoding) :
    (s.deliver change encoding).2.journal = s.journal := by
  obtain ⟨d, registry, he, -⟩ := s.deliver_frame change encoding
  rw [he]

/-- A state change is counted for its own subscription only. -/
theorem tally_deliver (s : Service) {change : StateChange} {id : SubscriptionId} (hne : change.id ≠ id)
    (encoding : Encoding) : (s.deliver change encoding).2.registry.tally id = s.registry.tally id := by
  obtain ⟨d, registry, he, hregistry | hregistry⟩ := s.deliver_frame change encoding
  · rw [he, hregistry]
  · rw [he, hregistry, Registry.tally_countSent, if_neg hne]

/-! ## Telling -/

/-- What is told is on record, whether or not anyone receives it. -/
@[simp] theorem journal_emit (s : Service) (sub : Subscription) (change : StateChange) :
    (s.emit sub change).journal = s.journal ++ [change] := by
  rw [emit_eq]
  simp only
  split
  · rw [journal_deliver]
  · rfl

/-- The state changes that a subscription was told of, whether or not anyone received them. -/
def history (s : Service) (id : SubscriptionId) : List StateChange := s.journal.filter (·.id = id)

theorem history_of_journal {s t : Service} (h : t.journal = s.journal) (id : SubscriptionId) :
    t.history id = s.history id := by
  rw [history, h, history]

theorem history_emit_of_ne (s : Service) (sub : Subscription) {change : StateChange} {id : SubscriptionId}
    (hne : change.id ≠ id) : (s.emit sub change).history id = s.history id := by
  rw [history, journal_emit, List.filter_append]
  simp [history, hne]

theorem tally_emit (s : Service) (sub : Subscription) {change : StateChange} {id : SubscriptionId}
    (hne : change.id ≠ id) : (s.emit sub change).registry.tally id = s.registry.tally id := by
  rw [emit_eq]
  simp only
  split
  · exact tally_deliver _ hne sub.encoding
  · rfl

/-- What a subscription is told reaches its listener, and after the last of it the listener is let go. -/
theorem dispatcher_emit (s : Service) (sub : Subscription) (change : StateChange) :
    (s.emit sub change).dispatcher =
      let told := s.dispatcher.tell change.id
        (Message.encode change.id sub.encoding s.now change.toNode s.schema).toOption
      if s.dispatcher.running = true then
        if change.isTerminal = true ∧ s.dispatcher.attached.contains change.id = true then told.forget change.id
        else told
      else s.dispatcher := by
  rw [emit_eq]
  simp only
  split
  · exact dispatcher_deliver_eq ..
  · rfl

/-- A terminal state change takes its listener off; any other leaves all attached. -/
theorem get?_attached_emit {s : Service} (h : s.dispatcher.Sound) (sub : Subscription) (change : StateChange)
    (id : SubscriptionId) :
    (s.emit sub change).dispatcher.attached.get? id =
      if change.isTerminal = true ∧ change.id = id then none else s.dispatcher.attached.get? id := by
  rw [dispatcher_emit]
  cases hrunning : s.dispatcher.running with
  | false =>
    simp only [Bool.false_eq_true, if_false, h.idle hrunning id, ite_self]
  | true =>
    simp only [if_true]
    by_cases hlast : change.isTerminal = true ∧ s.dispatcher.attached.contains change.id = true
    · rw [if_pos hlast]
      show (Dispatcher.release _ change.id).attached.get? id = _
      rw [Dispatcher.get?_attached_release, Dispatcher.attached_tell]
      simp only [hlast.1, true_and]
    · rw [if_neg hlast, Dispatcher.attached_tell]
      split
      · -- the last one, but nobody listens
        rename_i hterminal
        have hnone : ¬ s.dispatcher.attached.contains id = true := fun hsome => hlast ⟨hterminal.1, hterminal.2 ▸ hsome⟩
        rwa [Table.contains, Option.not_isSome_iff_eq_none] at hnone
      · rfl

/-- The listener of another subscription notices nothing of it. -/
theorem same_emit {s : Service} (h : s.dispatcher.Sound) (sub : Subscription) {change : StateChange}
    {id : SubscriptionId} (hne : change.id ≠ id) : Dispatcher.Same id s.dispatcher (s.emit sub change).dispatcher := by
  rw [dispatcher_emit]
  simp only
  split
  · split
    · exact (h.same_tell hne _).trans ((h.tell change.id _).same_forget hne)
    · exact h.same_tell hne _
  · exact .refl id _

/-! ## Letting go -/

theorem journal_detach (s : Service) (id : SubscriptionId) : (s.detach id).2.journal = s.journal := by
  unfold detach
  split <;> rfl

theorem dispatcher_detach (s : Service) (id : SubscriptionId) :
    (s.detach id).2.dispatcher = if s.dispatcher.running = true then s.dispatcher.forget id else s.dispatcher := by
  unfold detach
  split <;> rfl

theorem get?_attached_detach {s : Service} (h : s.dispatcher.Sound) (k id : SubscriptionId) :
    (s.detach k).2.dispatcher.attached.get? id = if k = id then none else s.dispatcher.attached.get? id := by
  rw [dispatcher_detach]
  cases hrunning : s.dispatcher.running with
  | false =>
    simp only [Bool.false_eq_true, if_false, h.idle hrunning id, ite_self]
  | true => exact Dispatcher.get?_attached_release s.dispatcher k id

theorem same_detach {s : Service} (h : s.dispatcher.Sound) {k id : SubscriptionId} (hne : k ≠ id) :
    Dispatcher.Same id s.dispatcher (s.detach k).2.dispatcher := by
  rw [dispatcher_detach]
  split
  · exact h.same_forget hne
  · exact .refl id _

/-! ## Dropping -/

theorem journal_drop (s : Service) (k : SubscriptionId) : (s.drop k).journal = s.journal := by
  cases hfound : s.registry.lookup k with
  | none => rw [drop_of_lookup_none hfound]
  | some sub => rw [drop_eq hfound, journal_detach]

/-- A drop closes the listener of the subscription, and puts nothing into any. -/
theorem dispatcher_drop (s : Service) (k : SubscriptionId) :
    (s.drop k).dispatcher = s.dispatcher ∨ (s.drop k).dispatcher = s.dispatcher.forget k := by
  cases hfound : s.registry.lookup k with
  | none => exact .inl (by rw [drop_of_lookup_none hfound])
  | some sub =>
    rw [drop_eq hfound, dispatcher_detach]
    split
    · exact .inr rfl
    · exact .inl rfl

theorem accepted_drop (s : Service) (k : SubscriptionId) (l : ListenerId) :
    (s.drop k).dispatcher.accepted l = s.dispatcher.accepted l := by
  rcases s.dispatcher_drop k with he | he
  · rw [he]
  · rw [he]
    exact Dispatcher.accepted_release s.dispatcher k l

theorem journal_closeSession (s : Service) (session : SessionId) : (s.closeSession session).2.journal = s.journal := by
  have hdrops := foldl_drop_preserves (I := fun t => t.journal = s.journal)
    (fun t k ht => (journal_drop t k).trans ht) (s.registry.ofSession session) rfl
  exact hdrops

/-- No listener is told that a session closed. -/
theorem accepted_closeSession (s : Service) (session : SessionId) (l : ListenerId) :
    (s.closeSession session).2.dispatcher.accepted l = s.dispatcher.accepted l := by
  have hdrops := foldl_drop_preserves (I := fun t => t.dispatcher.accepted l = s.dispatcher.accepted l)
    (fun t k ht => (accepted_drop t k l).trans ht) (s.registry.ofSession session) rfl
  exact hdrops

theorem sound_drop {s : Service} (hsound : s.dispatcher.Sound) (k : SubscriptionId) : (s.drop k).dispatcher.Sound := by
  rcases s.dispatcher_drop k with he | he
  · rwa [he]
  · rw [he]
    exact hsound.forget k

/-! ## Carrying notifications -/

theorem journal_of_bare {s t : Service} (h : s.bare = t.bare) : s.journal = t.journal :=
  congrArg (fun s => s.journal) h

theorem journal_dispatch (s : Service) (stream : String) : (s.dispatch stream).journal = s.journal := by
  cases hhead : (s.router.queue stream).head? with
  | none => rw [dispatch_of_head?_none hhead]
  | some n => exact (journal_of_bare (bare_dispatch hhead)).trans rfl

theorem journal_replay (s : Service) (id : SubscriptionId) : (s.replay id).journal = s.journal := by
  rcases s.replay_cases id with ⟨-, he⟩ | ⟨sub, events, -, -, he⟩
  · rw [he]
  · rw [he, journal_deliver]
    exact (journal_of_bare (bare_foldl_offer (fun n => (id, sub.stream, n)) events _)).trans rfl

/-- Only operations on subscriptions tell them of state changes. -/
theorem journal_step (s : Service) {a : Action} (h : a.carries = true) : (s.step a).journal = s.journal := by
  by_cases ha : a = .closeFeeds
  · subst ha
    rfl
  · rw [s.step_of_carries h ha]
    cases hm : s.moveOf? a with
    | none => rfl
    | some m =>
      show (s.move m).journal = _
      cases m with
      | publish n => rfl
      | dispatch stream => exact journal_dispatch s stream
      | attach id capacity replace =>
        show (s.attach id capacity replace).2.2.journal = _
        rcases s.attach_cases id capacity replace with he | ⟨-, he⟩
        · rw [he]
        · rw [he, journal_replay]
      | detach id => exact journal_detach s id
      | deliver change encoding => exact journal_deliver s change encoding
      | receive l max =>
        show (s.receive l max).2.journal = _
        unfold receive
        split <;> rfl
      | hangUp l => rfl
      | stop =>
        show (s.stop.toOption.getD s).journal = _
        unfold stop
        split <;> rfl
      | alter t =>
        -- no action is a change of what is not the dispatcher's
        cases a with
        | listen id capacity =>
          simp only [moveOf?] at hm
          split at hm <;> cases hm
        | _ => cases hm

end Service

end YangSubscriptions
