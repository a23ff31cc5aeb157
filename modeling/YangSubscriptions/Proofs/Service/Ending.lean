import YangSubscriptions.Proofs.Delivery.Replay
import YangSubscriptions.Proofs.Service.Accounting
import YangSubscriptions.Proofs.Service.Episodes

/-!
# Nothing follows the end

A subscription that was removed is gone for good: its id is not registered again, because the counter does not come
back to it (`Gone`). So nothing that comes later is about it (`about_step`), and the listener that it had,
which holds what it was told last, is closed and stays as it is (`Sealed`). `nothing_follows` states this for each
of the ways in which a subscription ends.
-/

namespace YangSubscriptions

namespace Dispatcher

variable {d : Dispatcher}

/-! ## Messages about a subscription -/

/-- The messages about a subscription that a listener has accepted. -/
def about (d : Dispatcher) (id : SubscriptionId) (l : ListenerId) : List Message := (d.accepted l).filter (·.id = id)

theorem about_of_accepted {d' : Dispatcher} {l : ListenerId} (h : d'.accepted l = d.accepted l) (id : SubscriptionId) :
    d'.about id l = d.about id l := by
  rw [about, h, about]

/-- A message about another subscription adds nothing to what is about this one. -/
theorem about_tell {id : SubscriptionId} {message? : Option Message} (h : ∀ m, message? = some m → m.id ≠ id)
    (k : SubscriptionId) (l : ListenerId) : (d.tell k message?).about id l = d.about id l := by
  rw [about, accepted_tell, List.filter_append, about]
  split
  · cases message? with
    | none => simp
    | some m => simp [h m rfl]
  · simp

theorem about_heed {id : SubscriptionId} {v : Verdict} (h : ∀ m, v = .message m → m.id ≠ id) (k : SubscriptionId)
    (l : ListenerId) : (d.heed k v).about id l = d.about id l := by
  cases v with
  | message m =>
    have htold : ∀ m', some m = some m' → m'.id ≠ id := fun m' hm' => h m' (congrArg _ (Option.some.inj hm'))
    exact about_tell htold k l
  | _ => rfl

/-- Nor does a round of verdicts, none of which is a message about it. -/
theorem about_heedAll {id : SubscriptionId} {v : SubscriptionId → Verdict} (h : ∀ k m, v k = .message m → m.id ≠ id)
    (ids : List SubscriptionId) (l : ListenerId) : (d.heedAll v ids).about id l = d.about id l := by
  induction ids generalizing d with
  | nil => rfl
  | cons k ids ih => exact (ih (d := d.heed k (v k))).trans (about_heed (h k) k l)

theorem about_forget (k id : SubscriptionId) (l : ListenerId) : (d.forget k).about id l = d.about id l :=
  about_of_accepted (accepted_release d k l) id

theorem about_modifyListener (k : ListenerId) {f : Listener → Listener} (hf : ∀ x, (f x).accepted = x.accepted)
    (id : SubscriptionId) (l : ListenerId) : (d.modifyListener k f).about id l = d.about id l :=
  about_of_accepted (accepted_modifyListener d k hf l) id

/-! ## Listeners that are closed -/

/-- The listener is closed, and that is all it ever accepted. -/
def Sealed (l : ListenerId) (ms : List Message) (d : Dispatcher) : Prop :=
  ∃ x, d.listener? l = some x ∧ x.senderOpen = false ∧ x.accepted = ms

namespace Sealed

variable {l : ListenerId} {ms : List Message}

theorem of_listener {d' : Dispatcher} (h : d.Sealed l ms) (hsame : d'.listener? l = d.listener? l) :
    d'.Sealed l ms := by
  obtain ⟨x, hx, hclosed⟩ := h
  exact ⟨x, hsame.trans hx, hclosed⟩

theorem modifyListener (h : d.Sealed l ms) (k : ListenerId) {f : Listener → Listener}
    (hf : ∀ x, x.senderOpen = false → (f x).senderOpen = false ∧ (f x).accepted = x.accepted) :
    (d.modifyListener k f).Sealed l ms := by
  obtain ⟨x, hx, hclosed, hms⟩ := h
  by_cases hk : k = l
  · obtain ⟨hclosed', hsame⟩ := hf x hclosed
    exact ⟨f x, by rw [listener?_modifyListener, if_pos hk, hx, Option.map_some], hclosed', hsame.trans hms⟩
  · exact ⟨x, by rw [listener?_modifyListener, if_neg hk, hx], hclosed, hms⟩

theorem closeSender (h : d.Sealed l ms) (k : ListenerId) : (d.closeSender k).Sealed l ms :=
  h.modifyListener k fun _ _ => ⟨rfl, rfl⟩

theorem give (h : d.Sealed l ms) (id : SubscriptionId) (m : Message) : (d.give id m).Sealed l ms := by
  unfold Dispatcher.give
  cases hpush : d.push? id m with
  | none => exact h
  | some d' =>
    obtain ⟨k, -, htakes, rfl⟩ := push?_eq_some hpush
    have hne : k ≠ l := by
      rintro rfl
      obtain ⟨x, hx, hclosed, -⟩ := h
      simp [Dispatcher.takes, hx, Listener.takes, Listener.isOpen, hclosed] at htakes
    exact h.of_listener (listener?_put_of_ne d hne m)

theorem heed (h : d.Sealed l ms) (id : SubscriptionId) (v : Verdict) : (d.heed id v).Sealed l ms := by
  cases v with
  | message m => exact h.give id m
  | _ => exact h

theorem heedAll (h : d.Sealed l ms) (v : SubscriptionId → Verdict) (ids : List SubscriptionId) :
    (d.heedAll v ids).Sealed l ms := by
  induction ids generalizing d with
  | nil => exact h
  | cons id ids ih => exact ih (h.heed id (v id))

theorem release (h : d.Sealed l ms) (id : SubscriptionId) : (d.release id).Sealed l ms := by
  rcases d.release_cases id with he | ⟨k, he⟩
  · rwa [he]
  · rw [he]
    exact h.closeSender k

theorem forget (h : d.Sealed l ms) (id : SubscriptionId) : (d.forget id).Sealed l ms := h.release id

theorem openListener (h : d.Sealed l ms) (hsound : d.Sound) (capacity : Nat) :
    (d.openListener capacity).2.Sealed l ms := by
  refine h.of_listener ?_
  obtain ⟨x, hx, -⟩ := h
  have hl : l < d.listeners.size := (hsound.numbered l).1 (by rw [hx]; rfl)
  rw [listener?_openListener, if_neg (Nat.ne_of_gt hl)]

theorem turnAway (h : d.Sealed l ms) (hsound : d.Sound) (capacity : Nat) : (d.turnAway capacity).Sealed l ms :=
  (h.openListener hsound capacity).closeSender _

theorem seat (h : d.Sealed l ms) (hsound : d.Sound) (id : SubscriptionId) (capacity : Nat) :
    (d.seat id capacity).Sealed l ms := (h.openListener hsound capacity).release id

theorem stop (h : d.Sealed l ms) : d.stop.Sealed l ms := by
  obtain ⟨x, hx, -, hms⟩ := h
  exact ⟨{ x with senderOpen := false }, by rw [listener?_stop, hx, Option.map_some], rfl, hms⟩

end Sealed

/-- A listener that is let go is closed. -/
theorem sealed_forget {id : SubscriptionId} {l : ListenerId} (hsound : d.Sound) (hid : d.attached.get? id = some l) :
    (d.forget id).Sealed l (d.accepted l) := by
  obtain ⟨x, hx⟩ := Option.isSome_iff_exists.1 ((hsound.numbered l).2 (hsound.known id l hid))
  refine ⟨{ x with senderOpen := false }, ?_, rfl, ?_⟩
  · show (d.release id).listener? l = _
    unfold release
    rw [hid]
    exact (listener?_modifyListener ..).trans (by rw [if_pos rfl, hx, Option.map_some])
  · rw [accepted, hx]
    rfl

end Dispatcher

namespace Service

open Records (Allotted Given)

variable {s t : Service}

/-! ## Closed listeners along a run -/

theorem sealed_deliver {l : ListenerId} {ms : List Message} (h : s.dispatcher.Sealed l ms) (change : StateChange)
    (encoding : Encoding) : (s.deliver change encoding).2.dispatcher.Sealed l ms :=
  deliver_preserves (P := Dispatcher.Sealed l ms) h (h.give change.id) (fun _ hd => hd.forget change.id) encoding

theorem sealed_replay {l : ListenerId} {ms : List Message} (h : s.dispatcher.Sealed l ms) (id : SubscriptionId) :
    (s.replay id).dispatcher.Sealed l ms := by
  have hoffers : ∀ (events : List Notification) (stream : String) (s : Service), s.dispatcher.Sealed l ms →
      (events.foldl (fun s n => s.offer id stream n) s).dispatcher.Sealed l ms := by
    intro events stream
    induction events with
    | nil => exact fun s h => h
    | cons n events ih =>
      intro s h
      refine ih _ ?_
      rw [dispatcher_offer]
      exact h.heed id _
  rcases s.replay_cases id with ⟨-, he⟩ | ⟨sub, events, -, -, he⟩
  · rwa [he]
  · rw [he]
    exact sealed_deliver (hoffers events sub.stream _ (by exact h)) _ _

/-- What is closed accepts nothing, whatever the dispatcher does. -/
theorem sealed_move {l : ListenerId} {ms : List Message} (h : s.dispatcher.Sealed l ms) (hsound : s.dispatcher.Sound)
    (m : Move) : (s.move m).dispatcher.Sealed l ms := by
  cases m with
  | publish n => exact h
  | dispatch stream =>
    show (s.dispatch stream).dispatcher.Sealed l ms
    cases hhead : (s.router.queue stream).head? with
    | none => rwa [dispatch_of_head?_none hhead]
    | some n =>
      rw [dispatcher_dispatch hhead]
      exact Dispatcher.Sealed.heedAll (d := s.dispatcher.dropClosed) h _ _
  | attach id capacity replace =>
    show (s.attach id capacity replace).2.2.dispatcher.Sealed l ms
    rcases s.attach_cases id capacity replace with he | ⟨-, he⟩
    · rw [he]
      exact h.turnAway hsound capacity
    · rw [he]
      exact sealed_replay (by exact h.seat hsound id capacity) id
  | detach id =>
    show (s.detach id).2.dispatcher.Sealed l ms
    rw [dispatcher_detach]
    split
    · exact h.forget id
    · exact h
  | deliver change encoding => exact sealed_deliver h change encoding
  | receive k max =>
    show (s.receive k max).2.dispatcher.Sealed l ms
    unfold receive
    split
    · exact h.modifyListener k fun _ hclosed => ⟨hclosed, rfl⟩
    · exact h
  | hangUp k => exact h.modifyListener k fun _ hclosed => ⟨hclosed, rfl⟩
  | stop =>
    show (s.stop.toOption.getD s).dispatcher.Sealed l ms
    unfold stop
    split
    · exact h.stop
    · exact h
  | alter t => exact h

/-- A sealed listener stays as it is through whatever moves follow. -/
theorem Moved.sealed {l : ListenerId} {ms : List Message} (h : s.Moved t) (hsound : s.dispatcher.Sound)
    (hsealed : s.dispatcher.Sealed l ms) : t.dispatcher.Sealed l ms := by
  obtain ⟨ms', rfl⟩ := h
  have hboth := moves_preserve (I := fun s => s.dispatcher.Sound ∧ s.dispatcher.Sealed l ms)
    (fun s m hs => ⟨sound_move hs.1 m, sealed_move hs.2 hs.1 m⟩) ms' ⟨hsound, hsealed⟩
  exact hboth.2

/-- It stays as it is for the rest of a run. -/
theorem sealed_run {l : ListenerId} {ms : List Message} (h : s.dispatcher.Sealed l ms) (hsound : s.dispatcher.Sound)
    (as : List Action) : (s.run as).dispatcher.Sealed l ms := by
  have hboth := run_preserves (I := fun s => s.dispatcher.Sound ∧ s.dispatcher.Sealed l ms) (fun s a hs => ?_) as
    ⟨hsound, h⟩
  · exact hboth.2
  · refine ⟨sound_step hs.1 a, ?_⟩
    by_cases ha : a = .closeFeeds
    · subst ha
      exact hs.2
    · exact (moved_step s ha).sealed hs.1 hs.2

/-! ## Nobody is told of what is gone -/

theorem about_deliver {id : SubscriptionId} {change : StateChange} (hne : change.id ≠ id) (encoding : Encoding)
    (l : ListenerId) : (s.deliver change encoding).2.dispatcher.about id l = s.dispatcher.about id l := by
  have htold : ∀ m, (Message.encode change.id encoding s.now change.toNode s.schema).toOption = some m → m.id ≠ id := by
    intro m hm
    cases hencode : Message.encode change.id encoding s.now change.toNode s.schema with
    | error e =>
      rw [hencode] at hm
      cases hm
    | ok m' =>
      rw [hencode] at hm
      rw [← Option.some.inj hm, Message.id_of_encode hencode]
      exact hne
  rcases s.dispatcher_deliver change encoding with he | ⟨-, he⟩
  · rw [he, Dispatcher.about_tell htold]
  · rw [he, Dispatcher.about_forget, Dispatcher.about_tell htold]

theorem about_detach (k id : SubscriptionId) (l : ListenerId) :
    (s.detach k).2.dispatcher.about id l = s.dispatcher.about id l := by
  rw [dispatcher_detach]
  split
  · exact Dispatcher.about_forget k id l
  · rfl

/-- No listener accepts anything about the subscription, and it is told of nothing. -/
structure Hushed (id : SubscriptionId) (s t : Service) : Prop where
  about : ∀ l, t.dispatcher.about id l = s.dispatcher.about id l
  history : t.history id = s.history id

theorem Hushed.refl (id : SubscriptionId) (s : Service) : Hushed id s s := ⟨fun _ => rfl, rfl⟩

/-- Silence about a subscription goes on from one state to the next. -/
theorem Hushed.trans {id : SubscriptionId} {u : Service} (h : Hushed id s t) (h' : Hushed id t u) : Hushed id s u :=
  ⟨fun l => (h'.about l).trans (h.about l), h'.history.trans h.history⟩

/-- Nothing that is done to other subscriptions breaks the silence about one. -/
theorem hushed_handled {id : SubscriptionId} (h : Handled (· ≠ id) s t) : Hushed id s t := by
  induction h with
  | refl => exact .refl id s
  | alter _ _ dispatcher _ _ _ journal ih => exact ih.trans ⟨fun _ => by rw [dispatcher], history_of_journal journal id⟩
  | @emit t sub change _ hne ih =>
    refine ih.trans ⟨fun l => ?_, history_emit_of_ne t sub hne⟩
    rw [emit_eq]
    simp only
    split
    · exact about_deliver hne sub.encoding l
    · rfl
  | @detach t k _ ih =>
    exact ih.trans ⟨about_detach k id, history_of_journal (journal_detach t k) id⟩

/-- What is not registered is offered nothing. -/
theorem verdict_of_absent {id : SubscriptionId} (hkeyed : s.registry.Keyed) (habsent : s.registry.lookup id = none)
    (k : SubscriptionId) (stream : String) (n : Notification) (m : Message) (h : s.verdict k stream n = .message m) :
    m.id ≠ id := by
  obtain ⟨hm, sub, hfound⟩ := id_of_verdict hkeyed h
  rintro rfl
  rw [hm, hfound] at habsent
  cases habsent

/-- A notification that a feed yields says nothing about a subscription that is not registered. -/
theorem about_dispatch {id : SubscriptionId} (hkeyed : s.registry.Keyed) (habsent : s.registry.lookup id = none)
    (stream : String) (l : ListenerId) : (s.dispatch stream).dispatcher.about id l = s.dispatcher.about id l := by
  cases hhead : (s.router.queue stream).head? with
  | none => rw [dispatch_of_head?_none hhead]
  | some n =>
    rw [dispatcher_dispatch hhead,
      Dispatcher.about_heedAll fun k m hm => verdict_of_absent hkeyed habsent k stream n m hm]
    rfl

theorem about_replay {id : SubscriptionId} (hkeyed : s.registry.Keyed) (habsent : s.registry.lookup id = none)
    (k : SubscriptionId) (l : ListenerId) : (s.replay k).dispatcher.about id l = s.dispatcher.about id l := by
  have hoffers : ∀ (events : List Notification) (stream : String) (t : Service), t.registry.Keyed →
      t.registry.lookup id = none →
      (events.foldl (fun s n => s.offer k stream n) t).dispatcher.about id l = t.dispatcher.about id l := by
    intro events stream
    induction events with
    | nil => exact fun t _ _ => rfl
    | cons n events ih =>
      intro t hkeyed habsent
      have hlookup : ∀ k', (t.offer k stream n).registry.lookup k' = t.registry.lookup k' :=
        lookup_of_atRest (atRest_offer t k stream n)
      rw [List.foldl_cons, ih _ (fun k' sub hsub => hkeyed k' sub (hlookup k' ▸ hsub)) ((hlookup id).trans habsent),
        dispatcher_offer, Dispatcher.about_heed (verdict_of_absent hkeyed habsent k stream n)]
  rcases s.replay_cases k with ⟨-, he⟩ | ⟨sub, events, hfound, -, he⟩
  · rw [he]
  · have hne : (StateChange.replayCompleted k).id ≠ id := by
      rintro rfl
      rw [show (StateChange.replayCompleted k).id = k from rfl, hfound] at habsent
      cases habsent
    rw [he, about_deliver hne, hoffers events sub.stream _ (by exact hkeyed) (by exact habsent)]
    rfl

/-- Nothing that carries notifications brings any about what is not registered, not even to a listener that is
attached to it. -/
theorem about_step_of_carries {id : SubscriptionId} (hkeyed : s.registry.Keyed) (habsent : s.registry.lookup id = none)
    (hsound : s.dispatcher.Sound) {a : Action} (ha : a.carries = true) (l : ListenerId) :
    (s.step a).dispatcher.about id l = s.dispatcher.about id l := by
  have hattach : ∀ k capacity replace,
      (s.attach k capacity replace).2.2.dispatcher.about id l = s.dispatcher.about id l := by
    intro k capacity replace
    rcases s.attach_cases k capacity replace with he | ⟨-, he⟩
    · rw [he]
      exact Dispatcher.about_of_accepted (hsound.accepted_turnAway capacity l) id
    · rw [he, about_replay (by exact hkeyed) (by exact habsent)]
      exact Dispatcher.about_of_accepted (hsound.accepted_seat k capacity l) id
  cases a with
  | publish n => rfl
  | dispatch stream => exact about_dispatch hkeyed habsent stream l
  | listen k capacity =>
    show (s.listen k capacity).2.dispatcher.about id l = _
    have hattached := hattach k capacity false
    unfold listen
    split
    · rfl
    · split
      · split <;> rename_i he <;> rw [he] at hattached <;> exact hattached
      · rfl
  | attach k capacity replace => exact hattach k capacity replace
  | detach k => exact about_detach k id l
  | receive k max =>
    show (s.receive k max).2.dispatcher.about id l = _
    unfold receive
    split
    · exact Dispatcher.about_modifyListener k (by exact fun _ => rfl) id l
    · rfl
  | hangUp k =>
    show (s.dispatcher.closeReceiver k).about id l = _
    exact Dispatcher.about_modifyListener k (by exact fun _ => rfl) id l
  | stop =>
    show (s.stop.toOption.getD s).dispatcher.about id l = _
    unfold stop
    split
    · exact Dispatcher.about_of_accepted ((Dispatcher.silent_stop s.dispatcher).accepted l) id
    · rfl
  | closeFeeds => rfl
  | _ => cases ha

/-! ## Gone for good -/

/-- The id was given and is registered no more. -/
structure Gone (n : Nat) (id : SubscriptionId) (s : Service) : Prop where
  wf : s.registry.WF
  sound : s.dispatcher.Sound
  allotted : s.records.Allotted n
  given : Given n id
  absent : s.registry.lookup id = none

namespace Gone

variable {n : Nat} {id : SubscriptionId}

/-- The next id is another one, as long as there are ids that were not given. -/
theorem nextId_ne (h : Gone n id s) (hn : n < UInt32.size) : s.registry.nextId ≠ id := by
  have hnext : s.registry.nextId = firstSubscriptionId + UInt32.ofNat n := h.allotted.next
  rw [hnext]
  rintro rfl
  exact Records.not_given hn h.given

/-- A subscription that is gone stays gone, as long as its id cannot come round. -/
theorem step (h : Gone n id s) {a : Action} (hcount : n + (if a.establishes then 1 else 0) ≤ UInt32.size) :
    ∃ m, n ≤ m ∧ m ≤ n + (if a.establishes then 1 else 0) ∧ Gone m id (s.step a) := by
  obtain ⟨m, hnm, hm, hallotted⟩ := allotted_step h.wf h.allotted a
  refine ⟨m, hnm, hm, wf_step h.wf a, sound_step h.sound a, hallotted, h.given.mono hnm, ?_⟩
  rw [← Option.not_isSome_iff_eq_none]
  intro hsome
  have habsent : ¬ (s.records.registry.lookup id).isSome = true := by
    rw [lookup_records, h.absent]
    nofun
  rcases (step_turn h.wf a).registers (Registry.wf_untallied.2 h.wf) with
    ⟨-, hlookup⟩ | ⟨hestablishes, -, sub, hsub, hlookup⟩
  · exact habsent (hlookup id hsome)
  · rw [if_pos hestablishes] at hcount
    have hentered := hlookup id hsome
    rw [Registry.lookup_enter, if_neg fun he => h.nextId_ne (by omega) (hsub.symm.trans he)] at hentered
    exact habsent hentered

/-- Of a subscription that is gone no step says anything. -/
theorem hushed_step (h : Gone n id s) {a : Action} (hcount : n + (if a.establishes then 1 else 0) ≤ UInt32.size) :
    Hushed id s (s.step a) := by
  cases hcarries : a.carries with
  | true =>
    exact ⟨about_step_of_carries h.wf.keyed h.absent h.sound hcarries, history_of_journal (journal_step s hcarries) id⟩
  | false =>
    cases hestablishes : a.establishes with
    | false =>
      have hregistered : Registered (· ≠ id) s := by
        intro k sub hsub
        have hne : k ≠ id := by
          rintro rfl
          rw [h.absent] at hsub
          cases hsub
        exact ⟨hne, (h.wf.keyed k sub hsub).symm ▸ hne⟩
      exact hushed_handled (handled_step hregistered hcarries hestablishes)
    | true =>
      rw [if_pos hestablishes] at hcount
      obtain ⟨session, r, rfl⟩ := Action.exists_of_establishes hestablishes
      show Hushed id s (s.establish session r).2
      rcases handled_establish (P := (· ≠ id)) (h.nextId_ne (by omega)) session r with he | hhandled
      · rw [he]
        exact .refl id s
      · exact Hushed.trans (t := s.skipped) ⟨fun _ => rfl, rfl⟩ (hushed_handled hhandled)

/-- It stays gone, and nobody hears of it. -/
theorem run (h : Gone n id s) (as : List Action) (hcount : n + as.countP Action.establishes ≤ UInt32.size) :
    (∃ m, n ≤ m ∧ m ≤ n + as.countP Action.establishes ∧ Gone m id (s.run as)) ∧ Hushed id s (s.run as) := by
  induction as generalizing s n with
  | nil => exact ⟨⟨n, Nat.le_refl n, Nat.le_refl n, h⟩, .refl id s⟩
  | cons a as ih =>
    rw [List.countP_cons] at hcount ⊢
    obtain ⟨k, hnk, hk, hstepped⟩ := h.step (a := a) (by omega)
    obtain ⟨⟨m, hkm, hm, hrun⟩, hhushed⟩ := ih hstepped (by omega)
    exact ⟨⟨m, by omega, by omega, hrun⟩, (h.hushed_step (by omega)).trans hhushed⟩

/-- Whatever is asked about it, by whomever, it is unknown. -/
theorem unknown (h : Gone n id s) :
    (∀ capacity, s.listen id capacity = (.error (.unknownSubscription id), s)) ∧
    (∀ session r, r.id = id → s.answer session (.modify r) = (.error (.unknownSubscription id), s)) ∧
    (∀ session, s.answer session (.delete id) = (.error (.unknownSubscription id), s)) ∧
    ∀ session, s.answer session (.kill id) = (.error (.unknownSubscription id), s) := by
  refine ⟨fun capacity => ?_, fun session r hr => ?_, fun session => ?_, fun session => ?_⟩
  · simp only [listen, h.absent]
  · subst hr
    simp only [answer, modify, checkModify, h.absent, Except.map]
  · simp only [answer, delete, h.absent, Except.map]
  · simp only [answer, kill, h.absent, Except.map]

end Gone

/-! ## The end -/

end Service

/-- Does it end subscriptions? -/
def Action.ends : Action → Bool
  | request _ (.delete _) | request _ (.kill _) | expire _ | closeSession _ => true
  | _ => false

/-- What a subscription is told when the action ends it. -/
def Action.farewell? (id : SubscriptionId) : Action → Option StateChange
  | request _ (.delete _) => some (.terminated id .noSuchSubscription)
  | request _ (.kill _) => some (.terminated id .killed)
  | expire _ => some (.completed id)
  | _ => none

/-- What ends subscriptions neither asks for any nor carries notifications. -/
theorem Action.plain_of_ends {a : Action} (ha : a.ends = true) : a.establishes = false ∧ a.carries = false := by
  cases a with
  | request session r => cases r <;> first | exact ⟨rfl, rfl⟩ | cases ha
  | _ => first | exact ⟨rfl, rfl⟩ | cases ha

theorem Action.terminal_of_farewell? {id : SubscriptionId} {a : Action} {c : StateChange}
    (h : a.farewell? id = some c) :
    c.isTerminal = true ∧ c.id = id := by
  unfold farewell? at h
  split at h <;> cases h <;> exact ⟨rfl, rfl⟩

namespace Service

open Records (Given)

variable {s t : Service} {id : SubscriptionId}

/-- What a listener is given at the end of its subscription. -/
def farewells (s : Service) (sub : Subscription) (l : ListenerId) (change? : Option StateChange) : List Message :=
  if s.dispatcher.takes l then
    (change?.bind fun c => (Message.encode sub.id sub.encoding s.now c.toNode s.schema).toOption).toList
  else []

/-- How an action leaves the service when it ended a subscription. -/
structure EndedBy (s : Service) (sub : Subscription) (a : Action) (t : Service) : Prop where
  journal : t.journal = s.journal ++ (a.farewell? sub.id).toList
  closed : ∀ l, s.dispatcher.attached.get? sub.id = some l →
    t.dispatcher.Sealed l (s.dispatcher.accepted l ++ s.farewells sub l (a.farewell? sub.id))

theorem running_of_attached (hsound : s.dispatcher.Sound) {l : ListenerId}
    (hid : s.dispatcher.attached.get? id = some l) : s.dispatcher.running = true := by
  cases hrunning : s.dispatcher.running with
  | true => rfl
  | false =>
    rw [hsound.idle hrunning id] at hid
    cases hid

/-- The last thing that a subscription is told closes its listener. -/
theorem sealed_emit (hsound : s.dispatcher.Sound) {sub : Subscription} {c : StateChange}
    (hterminal : c.isTerminal = true) (hid : c.id = sub.id) {l : ListenerId} (hl : s.dispatcher.attached.get? sub.id = some l) :
    (s.emit sub.ended c).dispatcher.Sealed l (s.dispatcher.accepted l ++ s.farewells sub l (some c)) := by
  have hcontains : s.dispatcher.attached.contains c.id = true := by
    rw [hid, Table.contains, hl]
    rfl
  rw [dispatcher_emit, if_pos (running_of_attached hsound hl), if_pos ⟨hterminal, hcontains⟩]
  have htold := (hsound.tell c.id
    (Message.encode c.id sub.ended.encoding s.now c.toNode s.schema).toOption)
  have hstill : (s.dispatcher.tell c.id
      (Message.encode c.id sub.ended.encoding s.now c.toNode s.schema).toOption).attached.get? c.id = some l := by
    rw [Dispatcher.attached_tell, hid, hl]
  have hsealed := Dispatcher.sealed_forget htold hstill
  rw [Dispatcher.accepted_tell, hid, hl] at hsealed
  rw [hid]
  unfold farewells
  simpa [show sub.ended.encoding = sub.encoding from rfl] using hsealed

theorem endedBy_terminate (hwf : s.registry.WF) (hsound : s.dispatcher.Sound) {sub : Subscription}
    (hfound : s.registry.lookup sub.id = some sub) {k : SubscriptionId} {other : Subscription}
    (hother : s.registry.lookup k = some other) {reason : TerminationReason} {a : Action}
    (ha : a.farewell? sub.id = some (.terminated sub.id reason))
    (hgone : (s.terminate other reason).2.registry.lookup sub.id = none) :
    EndedBy s sub a (s.terminate other reason).2 := by
  obtain rfl : other.id = k := hwf.keyed k other hother
  rw [terminate_eq hother, if_pos (hwf.sound _ other hother).live] at hgone ⊢
  split at hgone
  · -- the record was put back, so nothing is gone
    change ((s.registry.leave other).reinstate other.ended other.state).lookup sub.id = none at hgone
    rw [Registry.reinstate_ended hother (hwf.indexed _ other hother), Registry.lookup_update, hfound] at hgone
    split at hgone <;> cases hgone
  · rename_i haccepting
    rw [if_neg haccepting]
    rw [lookup_emit] at hgone
    change (s.registry.leave other).lookup sub.id = none at hgone
    have hsame : other.id = sub.id := by
      rw [Registry.lookup_leave] at hgone
      split at hgone
      · assumption
      · rw [hfound] at hgone
        cases hgone
    obtain rfl : other = sub := by
      rw [hsame, hfound] at hother
      exact (Option.some.inj hother).symm
    refine ⟨?_, fun l hl => ?_⟩
    · rw [journal_emit, ha]
      rfl
    · rw [ha]
      exact sealed_emit (s := s.terminated other) hsound (c := .terminated other.id reason) rfl rfl hl

theorem endedBy_complete (hwf : s.registry.WF) (hsound : s.dispatcher.Sound) {sub : Subscription}
    (hfound : s.registry.lookup sub.id = some sub) {k : SubscriptionId}
    (hgone : (s.complete k).registry.lookup sub.id = none) : EndedBy s sub (.expire k) (s.complete k) := by
  cases hother : s.registry.lookup k with
  | none =>
    rw [complete_of_lookup_none hother] at hgone
    change s.registry.lookup sub.id = none at hgone
    rw [hfound] at hgone
    cases hgone
  | some other =>
    obtain rfl : other.id = k := hwf.keyed k other hother
    have hlive := (hwf.sound _ other hother).live
    rw [complete_eq hother hlive] at hgone ⊢
    rw [lookup_emit] at hgone
    have hsame : other.id = sub.id := by
      rw [Registry.lookup_leave] at hgone
      split at hgone
      · assumption
      · rw [hfound] at hgone
        cases hgone
    obtain rfl : other = sub := by
      rw [hsame, hfound] at hother
      exact (Option.some.inj hother).symm
    refine ⟨journal_emit .., fun l hl => ?_⟩
    exact sealed_emit (by exact hsound) (c := .completed other.id) rfl rfl hl

/-! ## Sessions that close -/

theorem sealed_drop {l : ListenerId} {ms : List Message} (h : s.dispatcher.Sealed l ms) (k : SubscriptionId) :
    (s.drop k).dispatcher.Sealed l ms := by
  rcases s.dispatcher_drop k with he | he
  · rwa [he]
  · rw [he]
    exact h.forget k

/-- Whoever is dropped has its listener closed. -/
theorem sealed_foldl_drop (hwf : s.registry.WF) (hsound : s.dispatcher.Sound) {ids : List SubscriptionId}
    (hid : id ∈ ids) (hfound : (s.registry.lookup id).isSome) {l : ListenerId}
    (hl : s.dispatcher.attached.get? id = some l) :
    (ids.foldl drop s).dispatcher.Sealed l (s.dispatcher.accepted l) := by
  induction ids generalizing s with
  | nil => cases hid
  | cons k ids ih =>
    by_cases hk : k = id
    · subst hk
      obtain ⟨sub, hsub⟩ := Option.isSome_iff_exists.1 hfound
      refine foldl_drop_preserves (I := fun t => t.dispatcher.Sealed l _) (fun _ k ht => sealed_drop ht k) ids ?_
      rw [drop_eq hsub, dispatcher_detach]
      exact (if_pos (running_of_attached hsound hl)).symm ▸ Dispatcher.sealed_forget hsound hl
    · have hmem : id ∈ ids := (List.mem_cons.1 hid).resolve_left (Ne.symm hk)
      have hattached : (s.drop k).dispatcher.attached.get? id = some l := by
        rcases s.dispatcher_drop k with he | he
        · rw [he, hl]
        · rw [he]
          exact (Dispatcher.get?_attached_release s.dispatcher k id).trans ((if_neg hk).trans hl)
      rw [← accepted_drop s k l]
      refine ih (wf_drop hwf k) (sound_drop hsound k) hmem ?_ hattached
      rwa [lookup_drop hwf, if_neg hk]

/-- A session that closes ends its subscriptions without a farewell. -/
theorem endedBy_closeSession (hwf : s.registry.WF) (hsound : s.dispatcher.Sound) {sub : Subscription}
    (hfound : s.registry.lookup sub.id = some sub) {session : SessionId}
    (hgone : (s.closeSession session).2.registry.lookup sub.id = none) :
    EndedBy s sub (.closeSession session) (s.closeSession session).2 := by
  have hmem : sub.id ∈ s.registry.ofSession session := by
    by_contra hnot
    rw [lookup_closeSession hwf, if_neg hnot, hfound] at hgone
    cases hgone
  refine ⟨?_, fun l hl => ?_⟩
  · show (s.closeSession session).2.journal = s.journal ++ []
    rw [journal_closeSession, List.append_nil]
  · have hnone : s.farewells sub l ((Action.closeSession session).farewell? sub.id) = [] := by
      simp [farewells, Action.farewell?]
    rw [hnone, List.append_nil]
    exact sealed_foldl_drop hwf hsound hmem (by rw [hfound]; rfl) hl

/-- Every way to end a subscription tells it so, if that is its way, and closes its listener. -/
theorem endedBy_step (hwf : s.registry.WF) (hsound : s.dispatcher.Sound) {sub : Subscription}
    (hfound : s.registry.lookup sub.id = some sub) {a : Action} (ha : a.ends = true)
    (hgone : (s.step a).registry.lookup sub.id = none) : EndedBy s sub a (s.step a) := by
  have hstays : s.registry.lookup sub.id ≠ none := by
    rw [hfound]
    nofun
  cases a with
  | request session r =>
    cases r with
    | delete k =>
      change (s.delete session k).2.registry.lookup sub.id = none at hgone
      show EndedBy s sub _ (s.delete session k).2
      rcases s.delete_cases session k with ⟨e, he⟩ | ⟨other, hother, -, he⟩ <;> rw [he] at hgone ⊢
      · exact absurd hgone hstays
      · exact endedBy_terminate hwf hsound hfound hother rfl hgone
    | kill k =>
      change (s.kill k).2.registry.lookup sub.id = none at hgone
      show EndedBy s sub _ (s.kill k).2
      rcases s.kill_cases k with ⟨e, he⟩ | ⟨other, hother, he⟩ <;> rw [he] at hgone ⊢
      · exact absurd hgone hstays
      · exact endedBy_terminate hwf hsound hfound hother rfl hgone
    | _ => cases ha
  | expire k => exact endedBy_complete hwf hsound hfound hgone
  | closeSession session => exact endedBy_closeSession hwf hsound hfound hgone
  | _ => cases ha

/-- A subscription that ended has no listener attached any more. -/
theorem detached_of_ends (hwf : s.registry.WF) (hsound : s.dispatcher.Sound) {sub : Subscription}
    (hfound : s.registry.lookup sub.id = some sub) {a : Action} (ha : a.ends = true)
    (hgone : (s.step a).registry.lookup sub.id = none) : (s.step a).dispatcher.attached.get? sub.id = none := by
  obtain ⟨hestablishes, hcarries⟩ := Action.plain_of_ends ha
  rw [Option.eq_none_iff_forall_ne_some]
  intro k hk
  have hepisodes := episodes_step (unheard_of_not_establishes hwf hestablishes) hcarries
  refine (hepisodes.attached hsound hk).2 ?_ (stateOf_eq_none.2 hgone)
  rw [stateOf_of_lookup hfound]
  nofun

/-! ## Nothing follows -/

theorem Moved.keeps (h : s.Moved t) (hsound : s.dispatcher.Sound) : s.dispatcher.Keeps t.dispatcher := by
  obtain ⟨ms, rfl⟩ := h
  have hboth := moves_preserve (I := fun t => t.dispatcher.Sound ∧ s.dispatcher.Keeps t.dispatcher)
    (fun t m ht => ⟨sound_move ht.1 m, ht.2.trans (keeps_move ht.1 m)⟩) ms ⟨hsound, .refl _⟩
  exact hboth.2

/-- In a run only new listeners are attached; one that is there stays with its subscription or is let go. -/
theorem keeps_run (hsound : s.dispatcher.Sound) (as : List Action) : s.dispatcher.Keeps (s.run as).dispatcher := by
  have hboth := run_preserves (I := fun t => t.dispatcher.Sound ∧ s.dispatcher.Keeps t.dispatcher) (fun t a ht => ?_) as
    ⟨hsound, .refl _⟩
  · exact hboth.2
  · refine ⟨sound_step ht.1 a, ?_⟩
    by_cases ha : a = .closeFeeds
    · subst ha
      exact ht.2
    · exact ht.2.trans ((moved_step t ha).keeps ht.1)

/-- A listener that is attached to what is gone holds nothing, if it came later. -/
theorem accepted_of_hushed (hsound : s.dispatcher.Sound) (has : s.dispatcher.attached.get? id = none)
    (hkeeps : s.dispatcher.Keeps t.dispatcher) (haddressed : t.dispatcher.Addressed) (h : Hushed id s t)
    {l : ListenerId} (hl : t.dispatcher.attached.get? id = some l) : t.dispatcher.accepted l = [] := by
  have hnew : s.dispatcher.listeners.size ≤ l := by
    by_contra hlt
    have hbefore := hkeeps.attached id l (Nat.not_le.1 hlt) hl
    rw [has] at hbefore
    cases hbefore
  have hall : t.dispatcher.about id l = t.dispatcher.accepted l := by
    obtain ⟨owner, hmessages, howner⟩ := haddressed l
    refine List.filter_eq_self.2 fun m hm => ?_
    rw [hmessages m hm, howner id hl]
    exact decide_eq_true rfl
  rw [← hall, h.about, Dispatcher.about, hsound.accepted_of_size_le hnew]
  rfl

/-- Where a subscription is over: what came of it stays as it was at its end, and whatever is asked about it is
refused. -/
structure Over (id : SubscriptionId) (e u : Service) : Prop extends Hushed id e u where
  empty : ∀ l, u.dispatcher.attached.get? id = some l → u.dispatcher.accepted l = []
  listen : ∀ capacity, u.listen id capacity = (.error (.unknownSubscription id), u)
  modify : ∀ session r, r.id = id → u.answer session (.modify r) = (.error (.unknownSubscription id), u)
  delete : ∀ session, u.answer session (.delete id) = (.error (.unknownSubscription id), u)
  kill : ∀ session, u.answer session (.kill id) = (.error (.unknownSubscription id), u)
  fresh : ∀ session r reply v, u.establish session r = (.ok reply, v) → reply.id ≠ id

/-- A subscription was registered, and an action ended it: a request to delete or kill it, its stop-time, or its
session that closed. Then it was told so last, unless its session closed; if it had a listener that had room, that
is the last that the listener holds, after all it held before; and the listener is closed and never accepts anything
again. For the rest of the run, as long as it does not ask for more subscriptions than there are ids: no
listener accepts any message about the subscription, not even one that somebody attaches to it; it is told of nothing;
to listen to it, modify it, delete it or kill it fails since it is unknown; and no new subscription gets its id. -/
theorem nothing_follows (now : Instant) (schema : Schema) (configs : List StreamConfig) (as : List Action)
    {sub : Subscription} {a : Action} (ha : a.ends = true)
    (hfound : ((start now schema configs).run as).registry.lookup sub.id = some sub)
    (hgone : (((start now schema configs).run as).step a).registry.lookup sub.id = none) :
    let s := (start now schema configs).run as
    let e := s.step a
    e.journal = s.journal ++ (a.farewell? sub.id).toList ∧
    (∀ l, s.dispatcher.attached.get? sub.id = some l → ∀ bs,
      (e.run bs).dispatcher.Sealed l (s.dispatcher.accepted l ++ s.farewells sub l (a.farewell? sub.id))) ∧
    (∀ c, a.farewell? sub.id = some c → ∃ m, Message.encode sub.id sub.encoding s.now c.toNode s.schema = .ok m ∧
      ∀ l, s.farewells sub l (some c) = if s.dispatcher.takes l then [m] else []) ∧
    ∀ bs, as.countP Action.establishes + bs.countP Action.establishes < UInt32.size → Over sub.id e (e.run bs) := by
  intro s e
  have hs : s.Reachable := ⟨now, schema, configs, as, rfl⟩
  have hended : EndedBy s sub a e := endedBy_step hs.wf hs.sound hfound ha hgone
  have hestablishes := (Action.plain_of_ends ha).1
  refine ⟨hended.journal, fun l hl bs => sealed_run (hended.closed l hl) (sound_step hs.sound a) bs,
    fun c hc => ?_, fun bs hcount => ?_⟩
  · obtain ⟨hterminal, -⟩ := Action.terminal_of_farewell? hc
    obtain ⟨m, hm⟩ := encode_terminal sub.id sub.encoding s.now s.schema hterminal
    refine ⟨m, hm, fun l => ?_⟩
    simp [farewells, hm, Except.toOption]
  · obtain ⟨n, -, hn, hallotted⟩ := allotted_run Registry.WF.empty (allotted_start now schema configs) as
    obtain ⟨m, hnm, hm, hafter⟩ := allotted_step hs.wf hallotted a
    rw [hestablishes] at hm
    have hgiven : Given m sub.id := (hallotted.given sub.id sub hfound).mono hnm
    have hgone' : Gone m sub.id e := ⟨wf_step hs.wf a, sound_step hs.sound a, hafter, hgiven, hgone⟩
    obtain ⟨⟨k, -, hk, hstill⟩, hhushed⟩ := hgone'.run bs (by simp at hm; omega)
    obtain ⟨hlisten, hmodify, hdelete, hkill⟩ := hstill.unknown
    refine ⟨hhushed, fun l hl => ?_, hlisten, hmodify, hdelete, hkill, fun session r reply v hreply => ?_⟩
    · have hfree := detached_of_ends hs.wf hs.sound hfound ha hgone
      have hall : (start now schema configs).run (as ++ a :: bs) = e.run bs := run_append ..
      obtain ⟨_, -, -, hcounted⟩ := (counted_start now schema configs).run (as ++ a :: bs) (by
        rw [List.countP_append, List.countP_cons, hestablishes]
        simp
        omega)
      rw [hall] at hcounted
      exact accepted_of_hushed hgone'.sound hfree (keeps_run hgone'.sound bs) hcounted.balanced.addressed hhushed hl
    · rw [id_of_establish hreply]
      exact hstill.nextId_ne (by simp at hm; omega)

/-- A subscription is told of its new stop-time and then killed; what comes afterwards changes nothing. -/
theorem nothing_follows_killedAfterExtension :
    let id := firstSubscriptionId
    let owner : Session := ⟨1, "", none⟩
    let subscribe : Request := .establish ⟨some netconfStream, none, none, none, none⟩
    let bs : List Action := [.attach id 8 true, .publish ⟨netconfStream, ⟨1, 0⟩, .text "note" "late"⟩,
      .dispatch netconfStream, .request owner subscribe]
    let s := (start ⟨0, 0⟩ .empty []).run
      [.request owner subscribe, .listen id 8, .request owner (.modify ⟨id, none, none, some ⟨60, 0⟩⟩)]
    let t := (s.step (.request ⟨2, "", none⟩ (.kill id))).run bs
    (s.dispatcher.accepted 0).length = 1 ∧
      t.dispatcher.Sealed 0 (s.dispatcher.accepted 0 ++
        [⟨id, .json, (Notification.envelope ⟨0, 0⟩ (StateChange.terminated id .killed).toNode).render⟩]) ∧
      t.dispatcher.accepted 1 = [] ∧
      t.answer owner (.delete id) = (.error (.unknownSubscription id), t) := by
  intro id owner subscribe bs s t
  obtain ⟨sub, hsub⟩ : ∃ sub, s.registry.lookup id = some sub := Option.isSome_iff_exists.1 (by decide +kernel)
  have hid : sub.id = id := Reachable.wf ⟨⟨0, 0⟩, .empty, [], _, rfl⟩ |>.keyed _ sub hsub
  have hjson : sub.encoding = .json := by
    have hencoding : (s.registry.lookup id).map (·.encoding) = some .json := by decide +kernel
    rw [hsub] at hencoding
    exact Option.some.inj hencoding
  obtain ⟨-, hsealed, hfarewell, hover⟩ := nothing_follows ⟨0, 0⟩ .empty [] _
    (a := .request ⟨2, "", none⟩ (.kill id)) rfl (hid ▸ hsub) (by rw [hid]; decide +kernel)
  obtain ⟨m, hm, hlast⟩ := hfarewell _ rfl
  rw [hid, hjson] at hm
  have htakes : s.dispatcher.takes 0 = true := by decide +kernel
  have hgiven := (hlast 0).trans (if_pos htakes)
  rw [← Except.ok.inj hm] at hgiven
  have hclosed := hsealed 0 (by rw [hid]; decide +kernel) bs
  have hafter := hover bs (by decide)
  rw [hid] at hafter
  refine ⟨by decide +kernel, ?_, hafter.empty 1 (by decide +kernel), hafter.delete owner⟩
  exact (congrArg (fun ms => t.dispatcher.Sealed 0 (s.dispatcher.accepted 0 ++ ms)) hgiven).mp hclosed

end Service

end YangSubscriptions
