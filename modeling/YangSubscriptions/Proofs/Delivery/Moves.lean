import YangSubscriptions.Proofs.Delivery.Offers

/-!
# Moves of the dispatcher

The dispatcher handles one thing at a time: a notification from a feed or a command. In between, the
rest of the server changes what it likes of its own (`alter`), so that commands reach the dispatcher
late and in any order. A listener accepts something in two moves only, a dispatch and the delivery of a
state change (`quiet_move`).
-/

namespace YangSubscriptions

inductive Move where
  | publish (n : Notification)
  | dispatch (stream : String)
  | attach (id : SubscriptionId) (capacity : Nat) (replace : Bool)
  | detach (id : SubscriptionId)
  | deliver (change : StateChange) (encoding : Encoding)
  | receive (l : ListenerId) (max : Nat)
  | hangUp (l : ListenerId)
  | stop
  | alter (t : Service)

namespace Move

/-- Does it hand a notification from a feed, or a state change, to listeners? -/
def delivers : Move → Bool
  | dispatch _ | deliver _ _ => true
  | _ => false

/-- Does it put something into feeds, take something from them or close them? -/
def touchesFeeds : Move → Bool
  | publish _ | dispatch _ | stop => true
  | _ => false

/-- The notification that it publishes. -/
def published? : Move → Option Notification
  | publish n => some n
  | _ => none

end Move

namespace Service

/-- Another state of all that is not the dispatcher's: feeds, listeners and what streams keep. -/
def alter (s t : Service) : Service :=
  { t with
    router := s.router
    dispatcher := s.dispatcher
    streams := { t.streams with streams := s.streams.streams } }

def move (s : Service) : Move → Service
  | .publish n => (s.publish n).2
  | .dispatch stream => s.dispatch stream
  | .attach id capacity replace => (s.attach id capacity replace).2.2
  | .detach id => (s.detach id).2
  | .deliver change encoding => (s.deliver change encoding).2
  | .receive l max => (s.receive l max).2
  | .hangUp l => s.hangUp l
  | .stop => s.stop.toOption.getD s
  | .alter t => s.alter t

def moves (s : Service) (ms : List Move) : Service := ms.foldl move s

@[simp] theorem moves_nil (s : Service) : s.moves [] = s := rfl

@[simp] theorem moves_cons (s : Service) (m : Move) (ms : List Move) : s.moves (m :: ms) = (s.move m).moves ms := rfl

theorem moves_append (s : Service) (ms ms' : List Move) : s.moves (ms ++ ms') = (s.moves ms).moves ms' :=
  List.foldl_append ..

/-- Does a condition hold before every move? -/
def Along (p : Service → Prop) : Service → List Move → Prop
  | _, [] => True
  | s, m :: ms => p s ∧ Along p (s.move m) ms

theorem Along.imp {p q : Service → Prop} (hpq : ∀ s, p s → q s) {s : Service} {ms : List Move} (h : Along p s ms) :
    Along q s ms := by
  induction ms generalizing s with
  | nil => trivial
  | cons m ms ih => exact ⟨hpq s h.1, ih h.2⟩

/-- What every move preserves holds after all of them. -/
theorem moves_preserve {I : Service → Prop} (hmove : ∀ s m, I s → I (s.move m)) {s : Service} (ms : List Move)
    (hs : I s) : I (s.moves ms) := by
  induction ms generalizing s with
  | nil => exact hs
  | cons m ms ih => exact ih (hmove s m hs)

/-! ## State changes -/

/-- A state change is written down, and delivered while the dispatcher runs. -/
theorem emit_eq (s : Service) (sub : Subscription) (change : StateChange) :
    s.emit sub change =
      let t : Service := { s with journal := s.journal ++ [change] }
      if s.dispatcher.running = true then (t.deliver change sub.encoding).2 else t := by
  unfold emit tell
  simp only
  split <;> rfl

/-- A delivery tells the subscription, and after the last one its listener, if there is one, is let go. -/
theorem dispatcher_deliver_eq (s : Service) (change : StateChange) (encoding : Encoding) :
    (s.deliver change encoding).2.dispatcher =
      let told := s.dispatcher.tell change.id
        (Message.encode change.id encoding s.now change.toNode s.schema).toOption
      if change.isTerminal = true ∧ s.dispatcher.attached.contains change.id = true then told.forget change.id
      else told := by
  unfold deliver
  by_cases hattached : s.dispatcher.attached.contains change.id = true
  · simp only [hattached, if_true, and_true]
    cases hencode : Message.encode change.id encoding s.now change.toNode s.schema with
    | ok m =>
      have hgive := dispatcher_give s change.id m
      simp only
      split
      · exact congrArg (Dispatcher.forget · change.id) hgive
      · exact hgive
    | error e =>
      simp only
      split <;> rfl
  · have hnone : s.dispatcher.attached.get? change.id = none := by
      rwa [Table.contains, Option.not_isSome_iff_eq_none] at hattached
    simp only [hattached, and_false, Bool.false_eq_true, if_false]
    cases (Message.encode change.id encoding s.now change.toNode s.schema).toOption with
    | none => rfl
    | some m => exact (Dispatcher.give_of_unattached hnone m).symm

theorem dispatcher_deliver (s : Service) (change : StateChange) (encoding : Encoding) :
    let message? := (Message.encode change.id encoding s.now change.toNode s.schema).toOption
    (s.deliver change encoding).2.dispatcher = s.dispatcher.tell change.id message? ∨
      (change.isTerminal = true ∧
        (s.deliver change encoding).2.dispatcher = (s.dispatcher.tell change.id message?).forget change.id) := by
  rw [dispatcher_deliver_eq]
  simp only
  split
  · rename_i hlast
    exact .inr ⟨hlast.1, rfl⟩
  · exact .inl rfl

/-- What giving a message and letting go preserve holds after a delivery. -/
theorem deliver_preserves {P : Dispatcher → Prop} {s : Service} {change : StateChange} (h : P s.dispatcher)
    (hgive : ∀ m, P (s.dispatcher.give change.id m)) (hforget : ∀ d, P d → P (d.forget change.id))
    (encoding : Encoding) : P (s.deliver change encoding).2.dispatcher := by
  have htell : ∀ message?, P (s.dispatcher.tell change.id message?) := by
    intro message?
    cases message? with
    | none => exact h
    | some m => exact hgive m
  rcases s.dispatcher_deliver change encoding with he | ⟨-, he⟩
  · rw [he]
    exact htell _
  · rw [he]
    exact hforget _ (htell _)

theorem sound_deliver {s : Service} (h : s.dispatcher.Sound) (change : StateChange) (encoding : Encoding) :
    (s.deliver change encoding).2.dispatcher.Sound :=
  deliver_preserves h (h.give change.id) (fun _ hd => hd.forget change.id) encoding

theorem keeps_deliver (s : Service) (change : StateChange) (encoding : Encoding) :
    s.dispatcher.Keeps (s.deliver change encoding).2.dispatcher := by
  refine deliver_preserves (P := s.dispatcher.Keeps) (.refl _) (fun m => ⟨?_, fun id l _ hid => ?_⟩)
    (fun d hd => hd.trans (Dispatcher.quiet_forget d change.id).toKeeps) encoding
  · exact Nat.le_of_eq (Dispatcher.size_give ..).symm
  · rwa [Dispatcher.attached_give] at hid

theorem apart_deliver {d : Dispatcher} {s : Service} (change : StateChange)
    (h : Dispatcher.Apart change.id d s.dispatcher) (encoding : Encoding) :
    Dispatcher.Apart change.id d (s.deliver change encoding).2.dispatcher :=
  deliver_preserves (P := Dispatcher.Apart change.id d) h h.give (fun _ hd => hd.forget) encoding

/-! ## Replay -/

theorem sound_foldl_offer {s : Service} (h : s.dispatcher.Sound) (id : SubscriptionId) (stream : String)
    (events : List Notification) : (events.foldl (fun s n => s.offer id stream n) s).dispatcher.Sound := by
  induction events generalizing s with
  | nil => exact h
  | cons n events ih =>
    refine ih ?_
    rw [dispatcher_offer]
    exact h.heed id _

theorem apart_foldl_offer {d : Dispatcher} {s : Service} {id : SubscriptionId} (h : Dispatcher.Apart id d s.dispatcher)
    (stream : String) (events : List Notification) :
    Dispatcher.Apart id d (events.foldl (fun s n => s.offer id stream n) s).dispatcher := by
  induction events generalizing s with
  | nil => exact h
  | cons n events ih =>
    refine ih ?_
    rw [dispatcher_offer]
    cases s.verdict id stream n with
    | message m => exact h.give m
    | _ => exact h

/-- What a subscription has yet to be replayed, each with the stream. -/
def toReplay (s : Service) (id : SubscriptionId) : List (String × Notification) :=
  match s.registry.lookup id with
  | none => []
  | some sub =>
    match sub.replayStartTime with
    | none => []
    | some start =>
      if s.dispatcher.replayed.contains id then []
      else (s.streams.replay sub.stream start sub.stopTime).map fun n => (sub.stream, n)

/-- There is nothing to replay, or it is offered and the end of it told. -/
theorem replay_cases (s : Service) (id : SubscriptionId) :
    (s.toReplay id = [] ∧ s.replay id = s) ∨
      ∃ (sub : Subscription) (events : List Notification), s.registry.lookup id = some sub ∧
        s.toReplay id = events.map (fun n => (sub.stream, n)) ∧
        s.replay id = ((events.foldl (fun (s : Service) n => s.offer id sub.stream n)
          { s with dispatcher := { s.dispatcher with replayed := s.dispatcher.replayed.insert id () } }).deliver
            (.replayCompleted id) sub.encoding).2 := by
  unfold replay toReplay
  cases s.registry.lookup id with
  | none => exact .inl ⟨rfl, rfl⟩
  | some sub =>
    simp only
    cases sub.replayStartTime with
    | none => exact .inl ⟨rfl, rfl⟩
    | some start =>
      by_cases hset : s.dispatcher.replayed.contains id = true
      · simp only [hset, if_true]
        exact .inl ⟨trivial, trivial⟩
      · simp only [hset]
        exact .inr ⟨sub, _, rfl, rfl, rfl⟩

theorem sound_replay {s : Service} (h : s.dispatcher.Sound) (id : SubscriptionId) : (s.replay id).dispatcher.Sound := by
  rcases s.replay_cases id with ⟨-, he⟩ | ⟨sub, events, -, -, he⟩
  · rwa [he]
  · rw [he]
    refine sound_deliver (sound_foldl_offer ?_ id sub.stream events) _ sub.encoding
    exact h.of_attached rfl (fun _ _ hid => hid) rfl

theorem apart_replay {d : Dispatcher} {s : Service} {id : SubscriptionId} (h : Dispatcher.Apart id d s.dispatcher) :
    Dispatcher.Apart id d (s.replay id).dispatcher := by
  rcases s.replay_cases id with ⟨-, he⟩ | ⟨sub, events, -, -, he⟩
  · rwa [he]
  · rw [he]
    refine apart_deliver (.replayCompleted id) (apart_foldl_offer ?_ sub.stream events) sub.encoding
    exact ⟨h.toQuiet.trans (Dispatcher.quiet_of_attached rfl fun _ _ hid => hid), h.fresh⟩

/-! ## Attaching -/

theorem attach_eq (s : Service) (id : SubscriptionId) (capacity : Nat) (replace : Bool) :
    (s.attach id capacity replace).2.2 =
      let d := (s.dispatcher.openListener capacity).2
      let l := s.dispatcher.listeners.size
      if s.dispatcher.running then
        let t := { s with dispatcher := (d.attach id l replace).2 }
        if (d.attach id l replace).1 = .occupied then t else t.replay id
      else { s with dispatcher := d.closeSender l } := by
  unfold attach
  by_cases hrunning : s.dispatcher.running = true
  · rw [if_pos hrunning]
    exact congrArg (fun r : ListenerId × Except DispatcherFault AttachOutcome × Service => r.2.2) (if_pos hrunning)
  · rw [if_neg hrunning]
    exact congrArg (fun r : ListenerId × Except DispatcherFault AttachOutcome × Service => r.2.2) (if_neg hrunning)

/-- A new listener is turned away, or it is attached and what is to be replayed is delivered. -/
theorem attach_cases (s : Service) (id : SubscriptionId) (capacity : Nat) (replace : Bool) :
    (s.attach id capacity replace).2.2 = { s with dispatcher := s.dispatcher.turnAway capacity } ∨
      (s.dispatcher.running = true ∧ (s.attach id capacity replace).2.2 =
        { s with dispatcher := s.dispatcher.seat id capacity }.replay id) := by
  rw [attach_eq]
  by_cases hrunning : s.dispatcher.running = true
  · simp only [hrunning, if_true]
    rcases (s.dispatcher.openListener capacity).2.attach_cases id s.dispatcher.listeners.size replace with
      he | ⟨outcome, hne, he⟩
    · rw [he]
      exact .inl rfl
    · rw [he]
      exact .inr ⟨trivial, if_neg hne⟩
  · simp only [hrunning]
    exact .inl rfl

/-- It is turned away only if nothing runs or one that may not be replaced is there. -/
theorem attach_eq_ite {s : Service} (h : s.dispatcher.Sound) (id : SubscriptionId) (capacity : Nat) (replace : Bool) :
    (s.attach id capacity replace).2.2 =
      if s.dispatcher.running = true ∧ (replace = true ∨ s.dispatcher.hasOpenListener id = false) then
        { s with dispatcher := s.dispatcher.seat id capacity }.replay id
      else { s with dispatcher := s.dispatcher.turnAway capacity } := by
  rw [attach_eq]
  cases s.dispatcher.running with
  | false => rfl
  | true =>
    simp only [if_true]
    unfold Dispatcher.attach
    rw [h.hasOpenListener_openListener]
    cases s.dispatcher.hasOpenListener id <;> cases replace <;> rfl

/-- An attach gives nothing to the listeners there were, and keeps their table sound. -/
theorem attach_spec {s : Service} (h : s.dispatcher.Sound) (id : SubscriptionId) (capacity : Nat) (replace : Bool) :
    s.dispatcher.Quiet (s.attach id capacity replace).2.2.dispatcher ∧
      (s.attach id capacity replace).2.2.dispatcher.Sound := by
  rcases s.attach_cases id capacity replace with he | ⟨hrunning, he⟩
  · rw [he]
    exact ⟨h.quiet_turnAway capacity, h.turnAway capacity⟩
  · rw [he]
    have hapart : Dispatcher.Apart id s.dispatcher (s.dispatcher.seat id capacity) := by
      refine ⟨h.quiet_seat id capacity, fun l hid => ?_⟩
      rw [Dispatcher.get?_attached_seat, if_pos rfl] at hid
      exact Nat.le_of_eq (Option.some.inj hid)
    exact ⟨(apart_replay hapart).toQuiet, sound_replay (h.seat id capacity hrunning) id⟩

/-! ## What a move does to the listeners -/

/-- A move that delivers nothing leaves the listeners quiet. -/
theorem quiet_move {s : Service} (h : s.dispatcher.Sound) {m : Move} (hm : m.delivers = false) :
    s.dispatcher.Quiet (s.move m).dispatcher := by
  cases m with
  | publish n => exact .refl _
  | dispatch stream => cases hm
  | attach id capacity replace => exact (attach_spec h id capacity replace).1
  | detach id =>
    show s.dispatcher.Quiet (s.detach id).2.dispatcher
    unfold detach
    split
    · exact Dispatcher.quiet_forget s.dispatcher id
    · exact .refl _
  | deliver change encoding => cases hm
  | receive l max =>
    show s.dispatcher.Quiet (s.receive l max).2.dispatcher
    unfold receive
    split
    · exact Dispatcher.quiet_modifyListener s.dispatcher l fun _ => rfl
    · exact .refl _
  | hangUp l => exact Dispatcher.quiet_modifyListener s.dispatcher l fun _ => rfl
  | stop =>
    show s.dispatcher.Quiet (s.stop.toOption.getD s).dispatcher
    unfold stop
    split
    · exact Dispatcher.quiet_stop s.dispatcher
    · exact .refl _
  | alter t => exact .refl _

theorem keeps_dispatch (s : Service) (stream : String) : s.dispatcher.Keeps (s.dispatch stream).dispatcher := by
  cases h : (s.router.queue stream).head? with
  | none =>
    rw [dispatch_of_head?_none h]
    exact .refl _
  | some n =>
    rw [dispatcher_dispatch h]
    refine ⟨?_, fun id l _ hid => ?_⟩
    · rw [Dispatcher.size_heedAll]
      exact Nat.le_refl _
    rw [Dispatcher.attached_heedAll] at hid
    exact ((Dispatcher.get?_attached_dropClosed ..).1 hid).1

theorem sound_dispatch {s : Service} (h : s.dispatcher.Sound) (stream : String) :
    (s.dispatch stream).dispatcher.Sound := by
  cases hhead : (s.router.queue stream).head? with
  | none => rwa [dispatch_of_head?_none hhead]
  | some n =>
    rw [dispatcher_dispatch hhead]
    exact h.dropClosed.heedAll _ _

theorem keeps_move {s : Service} (h : s.dispatcher.Sound) (m : Move) : s.dispatcher.Keeps (s.move m).dispatcher := by
  cases m with
  | dispatch stream => exact keeps_dispatch s stream
  | deliver change encoding => exact keeps_deliver s change encoding
  | _ => exact (quiet_move h rfl).toKeeps

/-- Every move keeps the table of listeners sound. -/
theorem sound_move {s : Service} (h : s.dispatcher.Sound) (m : Move) : (s.move m).dispatcher.Sound := by
  cases m with
  | publish n => exact h
  | dispatch stream => exact sound_dispatch h stream
  | attach id capacity replace => exact (attach_spec h id capacity replace).2
  | detach id =>
    show (s.detach id).2.dispatcher.Sound
    unfold detach
    split
    · exact h.forget id
    · exact h
  | deliver change encoding => exact sound_deliver h change encoding
  | receive l max =>
    show (s.receive l max).2.dispatcher.Sound
    unfold receive
    split
    · exact h.modifyListener l _
    · exact h
  | hangUp l => exact h.modifyListener l _
  | stop =>
    show (s.stop.toOption.getD s).dispatcher.Sound
    unfold stop
    split
    · exact h.stop
    · exact h
  | alter t => exact h

/-! ## What a listener accepts in a move -/

/-- What a listener accepts in a move. -/
def gained (s : Service) (l : ListenerId) (m : Move) : List Message :=
  ((s.move m).dispatcher.accepted l).drop (s.dispatcher.accepted l).length

theorem gained_of_accepted {s : Service} {l : ListenerId} {m : Move} {ms : List Message}
    (h : (s.move m).dispatcher.accepted l = s.dispatcher.accepted l ++ ms) : s.gained l m = ms := by
  rw [gained, h, List.drop_left]

theorem gained_of_quiet {s : Service} {l : ListenerId} {m : Move}
    (h : (s.move m).dispatcher.accepted l = s.dispatcher.accepted l) : s.gained l m = [] :=
  gained_of_accepted (by rw [h, List.append_nil])

/-- The delivery of a state change reaches the listener of its subscription, if that has room, and no other. -/
theorem accepted_deliver {s : Service} {l : ListenerId} (hl : l < s.dispatcher.listeners.size) (change : StateChange)
    (encoding : Encoding) :
    (s.deliver change encoding).2.dispatcher.accepted l = s.dispatcher.accepted l ++
      if s.dispatcher.attached.get? change.id = some l ∧ s.dispatcher.takes l = true then
        (Message.encode change.id encoding s.now change.toNode s.schema).toOption.toList
      else [] := by
  rw [← Dispatcher.accepted_tell]
  rcases s.dispatcher_deliver change encoding with he | ⟨-, he⟩
  · rw [he]
  · rw [he]
    refine (Dispatcher.quiet_forget _ change.id).accepted l ?_
    rwa [Dispatcher.size_tell]

/-- A listener only ever accepts more. -/
theorem accepted_move {s : Service} (h : s.dispatcher.Sound) {l : ListenerId} (hl : l < s.dispatcher.listeners.size)
    (m : Move) : (s.move m).dispatcher.accepted l = s.dispatcher.accepted l ++ s.gained l m := by
  have hgrows : ∃ ms, (s.move m).dispatcher.accepted l = s.dispatcher.accepted l ++ ms := by
    cases m with
    | dispatch stream =>
      by_cases hid : ∃ id, s.dispatcher.attached.get? id = some l
      · obtain ⟨id, hid⟩ := hid
        cases hhead : (s.router.queue stream).head? with
        | none => exact ⟨[], by rw [move, dispatch_of_head?_none hhead, List.append_nil]⟩
        | some n => exact ⟨_, accepted_dispatch h hid hhead⟩
      · refine ⟨[], ?_⟩
        rw [List.append_nil]
        exact accepted_dispatch_of_unattached (fun id he => hid ⟨id, he⟩) stream
    | deliver change encoding => exact ⟨_, accepted_deliver hl change encoding⟩
    | _ => exact ⟨[], by rw [List.append_nil]; exact (quiet_move h rfl).accepted l hl⟩
  obtain ⟨ms, hms⟩ := hgrows
  rw [gained_of_accepted hms, hms]

/-- Only state changes reach a listener beside what feeds yield. -/
theorem gained_of_not_dispatch {s : Service} (h : s.dispatcher.Sound) {l : ListenerId}
    (hl : l < s.dispatcher.listeners.size) {m : Move} (hm : ∀ stream, m ≠ .dispatch stream) :
    s.gained l m = [] ∨ ∃ change encoding message, m = .deliver change encoding ∧
      s.dispatcher.attached.get? change.id = some l ∧
      Message.encode change.id encoding s.now change.toNode s.schema = .ok message ∧ s.gained l m = [message] := by
  cases m with
  | dispatch stream => exact absurd rfl (hm stream)
  | deliver change encoding =>
    have hgained := gained_of_accepted (m := .deliver change encoding) (accepted_deliver hl change encoding)
    split at hgained
    · rename_i htaken
      cases hencode : Message.encode change.id encoding s.now change.toNode s.schema with
      | ok message =>
        rw [hencode] at hgained
        exact .inr ⟨change, encoding, message, rfl, htaken.1, hencode, hgained⟩
      | error e =>
        rw [hencode] at hgained
        exact .inl hgained
    · exact .inl hgained
  | _ => exact .inl (gained_of_quiet ((quiet_move h rfl).accepted l hl))

end Service

end YangSubscriptions
