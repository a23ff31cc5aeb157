import YangSubscriptions.Proofs.Delivery.FanOut
import YangSubscriptions.Proofs.Delivery.Flags

/-!
# Replay

What a subscription that asked for replay is brought when it is attached for the first time: whatever
of the log lies between its times and passes its filter, and then that the replay is completed
(`listener?_first_attach`). The verdicts on the replayed notifications are all made in one state, so what
the offers bring is a filter of the log.
-/

namespace YangSubscriptions

namespace Listener

/-- A new listener that accepted these messages and still has them. -/
def holding (capacity : Nat) (ms : List Message) : Listener := { opened capacity with accepted := ms }

theorem takes_holding (capacity : Nat) (ms : List Message) :
    (holding capacity ms).takes = decide (ms.length < capacity) := by
  have hpending : (holding capacity ms).pending = ms := List.drop_zero
  have hfull : (holding capacity ms).isFull = decide (capacity ≤ ms.length) := by
    rw [isFull, hpending]
    rfl
  have hopen : (holding capacity ms).isOpen = true := rfl
  rw [takes, hfull, hopen, Bool.true_and, ← decide_not]
  exact decide_eq_decide.2 Nat.not_le

end Listener

namespace Dispatcher

/-- A new listener holds what it is given, as far as it has room. -/
theorem listener?_give {d : Dispatcher} {id : SubscriptionId} {l : ListenerId} {capacity : Nat} {ms : List Message}
    (hattached : d.attached.get? id = some l) (hholding : d.listener? l = some (.holding capacity (ms.take capacity)))
    (m : Message) : (d.give id m).listener? l = some (.holding capacity ((ms ++ [m]).take capacity)) := by
  have htakes : d.takes l = decide ((ms.take capacity).length < capacity) := by
    rw [takes, hholding, Option.any_some, Listener.takes_holding]
  rw [List.length_take] at htakes
  rw [give, push?_eq, hattached, Option.filter_some]
  by_cases hroom : ms.length < capacity
  · rw [if_pos (htakes.trans (decide_eq_true (by omega)))]
    show (d.put l m).listener? l = _
    rw [put, listener?_modifyListener, if_pos rfl, hholding, List.take_of_length_le (Nat.le_of_lt hroom),
      List.take_of_length_le (by rw [List.length_append, List.length_singleton]; omega)]
    rfl
  · rw [if_neg (by rw [htakes, decide_eq_true_eq]; omega)]
    show d.listener? l = _
    rw [hholding, List.take_append_of_le_length (by omega)]

end Dispatcher

/-! ## Messages that can always be encoded -/

theorem Node.xmlList_leaves (schema : Schema) (module current : Option String) {ns : List Node}
    (h : ∀ n ∈ ns, ∃ name value, n = .leaf (.bare name) value) :
    ∃ content, Node.xmlList schema module current ns = .ok content := by
  induction ns with
  | nil => exact ⟨[], by simp [Node.xmlList]⟩
  | cons n ns ih =>
    obtain ⟨name, value, rfl⟩ := h n List.mem_cons_self
    obtain ⟨rest, hrest⟩ := ih fun n' hn' => h n' (List.mem_cons_of_mem _ hn')
    have hsame : (NodeName.bare name).effectiveModule module = module := rfl
    simp [Node.xmlList, Node.xmlChars, Node.declaredNamespace, hsame, hrest, bind, Except.bind]

/-- A notification of the protocol's own module that holds leaves only. -/
theorem encode_leaves (id : SubscriptionId) (encoding : Encoding) (now : Instant) (schema : Schema) (name : String)
    {children : List Node} (h : ∀ n ∈ children, ∃ name value, n = .leaf (.bare name) value) :
    ∃ m, Message.encode id encoding now (.container (.qualified subscribedNotifications name) children) schema =
      .ok m := by
  cases encoding with
  | json => exact ⟨_, rfl⟩
  | xml =>
    have hnamespace : ∃ ns, schema.xmlnsOf? subscribedNotifications = some ns := by
      unfold Schema.xmlnsOf?
      cases schema.module? subscribedNotifications with
      | some m => exact ⟨m.xmlns, rfl⟩
      | none => exact ⟨subscribedNotificationsXmlns, by decide +kernel⟩
    obtain ⟨ns, hns⟩ := hnamespace
    obtain ⟨content, hcontent⟩ := Node.xmlList_leaves schema (some subscribedNotifications)
      (Xml.inner (some notificationXmlns) (some ns)) h
    have hbody : ∃ body, (Node.container (.qualified subscribedNotifications name) children).xmlChars schema none
        (some notificationXmlns) = .ok body := by
      by_cases hempty : children.isEmpty = true
      · simp [Node.xmlChars, Node.declaredNamespace, NodeName.effectiveModule, NodeName.qualified, Schema.namespaceOf,
          hns, bind, Except.bind, hempty]
      · simp [Node.xmlChars, Node.declaredNamespace, NodeName.effectiveModule, NodeName.qualified, Schema.namespaceOf,
          hns, bind, Except.bind, hempty, hcontent]
    obtain ⟨body, hbody⟩ := hbody
    unfold Message.encode Notification.xmlEnvelope
    simp only [hbody]
    exact ⟨_, rfl⟩

theorem encode_replayCompleted (id : SubscriptionId) (encoding : Encoding) (now : Instant) (schema : Schema) :
    ∃ m, Message.encode id encoding now (StateChange.replayCompleted id).toNode schema = .ok m := by
  refine encode_leaves id encoding now schema _ fun n hn => ?_
  rw [List.mem_singleton.1 hn]
  exact ⟨_, _, rfl⟩

/-- The last state change of a subscription. -/
theorem encode_terminal (id : SubscriptionId) (encoding : Encoding) (now : Instant) (schema : Schema) {c : StateChange}
    (h : c.isTerminal = true) : ∃ m, Message.encode id encoding now c.toNode schema = .ok m := by
  refine encode_leaves id encoding now schema _ fun n hn => ?_
  cases c with
  | terminated k reason =>
    rcases List.mem_pair.1 hn with rfl | rfl <;> exact ⟨_, _, rfl⟩
  | completed k =>
    rw [List.mem_singleton.1 hn]
    exact ⟨_, _, rfl⟩
  | _ => cases h

namespace Service

/-! ## The first attachment -/

/-- What of a log is replayed to a subscription that asked for it from a time on. -/
def replayable (schema : Schema) (sub : Subscription) (since : Instant) (log : ReplayLog) : List Message :=
  (log.between since sub.stopTime).filterMap (expected sub.id sub.resolved sub.encoding schema)

/-- Offers to one subscription put what passes its filter into its listener, in that order and as far as there is
room. -/
theorem listener?_foldl_offer {s : Service} {id : SubscriptionId} {stream : String} {f : Notification → Option Message}
    (hverdict : ∀ n, (s.verdict id stream n).message? = f n) {l : ListenerId} {capacity : Nat} {ms : List Message}
    (hattached : s.dispatcher.attached.get? id = some l)
    (hholding : s.dispatcher.listener? l = some (.holding capacity (ms.take capacity))) (events : List Notification) :
    (events.foldl (fun s n => s.offer id stream n) s).dispatcher.listener? l =
      some (.holding capacity ((ms ++ events.filterMap f).take capacity)) := by
  induction events generalizing s ms with
  | nil =>
    rw [List.filterMap_nil, List.append_nil]
    exact hholding
  | cons n events ih =>
    have hverdict' : ∀ n', ((s.offer id stream n).verdict id stream n').message? = f n' := by
      intro n'
      rw [← verdict_bare, bare_offer, verdict_bare]
      exact hverdict n'
    have hattached' : (s.offer id stream n).dispatcher.attached.get? id = some l := by
      rw [dispatcher_offer, Dispatcher.attached_heed]
      exact hattached
    rw [List.foldl_cons]
    cases hn : f n with
    | none =>
      rw [List.filterMap_cons_none hn]
      refine ih hverdict' hattached' ?_
      rw [dispatcher_offer]
      have hnone := (hverdict n).trans hn
      cases hv : s.verdict id stream n with
      | message m =>
        rw [hv] at hnone
        cases hnone
      | _ => exact hholding
    | some m =>
      rw [List.filterMap_cons_some hn, ← List.singleton_append, ← List.append_assoc]
      refine ih hverdict' hattached' ?_
      have hv : s.verdict id stream n = .message m := by
        have hsome := (hverdict n).trans hn
        cases hv : s.verdict id stream n with
        | message m' =>
          rw [hv] at hsome
          rw [Option.some.inj hsome]
        | _ =>
          rw [hv] at hsome
          cases hsome
      rw [dispatcher_offer, hv]
      exact Dispatcher.listener?_give hattached hholding m

/-- A replay that is due sets the flag, offers what the log holds and tells that this is completed. -/
theorem replay_eq {s : Service} {sub : Subscription} {since : Instant}
    (hrecorded : s.registry.lookup sub.id = some sub) (hasked : sub.replayStartTime = some since)
    (hnew : s.dispatcher.replayed.get? sub.id = none) :
    s.replay sub.id =
      (((s.streams.replay sub.stream since sub.stopTime).foldl (fun (s : Service) n => s.offer sub.id sub.stream n)
        { s with dispatcher := { s.dispatcher with replayed := s.dispatcher.replayed.insert sub.id () } }).deliver
          (.replayCompleted sub.id) sub.encoding).2 := by
  have hunset : s.dispatcher.replayed.contains sub.id = false := by rw [Table.contains, hnew]; rfl
  unfold replay
  simp only [hrecorded, hasked, hunset, Bool.false_eq_true, if_false]

/-- What the verdicts bring a new listener of what a replay goes through, and the end of it. -/
theorem listener?_replay {s : Service} {sub : Subscription} {since : Instant} {capacity : Nat}
    (hrecorded : s.registry.lookup sub.id = some sub) (hasked : sub.replayStartTime = some since)
    (hnew : s.dispatcher.replayed.get? sub.id = none) {l : ListenerId}
    (hattached : s.dispatcher.attached.get? sub.id = some l)
    (hopened : s.dispatcher.listener? l = some (.opened capacity)) :
    (∃ completed, Message.encode sub.id sub.encoding s.now (StateChange.replayCompleted sub.id).toNode s.schema =
        .ok completed ∧
      (s.replay sub.id).dispatcher.listener? l = some (.holding capacity
        (((s.streams.replay sub.stream since sub.stopTime).filterMap fun n =>
          (s.verdict sub.id sub.stream n).message?) ++ [completed] |>.take capacity))) ∧
    (s.replay sub.id).dispatcher.replayed.contains sub.id = true := by
  let t : Service := { s with dispatcher := { s.dispatcher with replayed := s.dispatcher.replayed.insert sub.id () } }
  let events := s.streams.replay sub.stream since sub.stopTime
  let u := events.foldl (fun (s : Service) n => s.offer sub.id sub.stream n) t
  have hbare : u.bare = t.bare := bare_foldl_offer (fun n => (sub.id, sub.stream, n)) events t
  have hempty : t.dispatcher.listener? l = some (.holding capacity ([].take capacity)) := by
    rw [List.take_nil]
    exact hopened
  have hverdict : ∀ n, (t.verdict sub.id sub.stream n).message? = (s.verdict sub.id sub.stream n).message? := fun _ => rfl
  have hholding : u.dispatcher.listener? l = _ := listener?_foldl_offer hverdict hattached hempty events
  rw [List.nil_append] at hholding
  have hstill : u.dispatcher.attached.get? sub.id = some l := by
    rw [attached_of_bare hbare]
    exact hattached
  obtain ⟨completed, hcompleted⟩ := encode_replayCompleted sub.id sub.encoding s.now s.schema
  have hdelivered : (u.deliver (.replayCompleted sub.id) sub.encoding).2.dispatcher =
      u.dispatcher.give sub.id completed := by
    have hnow : u.now = s.now := congrArg (fun s => s.now) hbare
    have hschema : u.schema = s.schema := congrArg (fun s => s.schema) hbare
    rcases u.dispatcher_deliver (.replayCompleted sub.id) sub.encoding with he | ⟨hterminal, -⟩
    · rw [he, hnow, hschema]
      show u.dispatcher.tell sub.id (Message.encode sub.id sub.encoding s.now _ s.schema).toOption = _
      rw [hcompleted]
      rfl
    · cases hterminal
  have hset : (u.dispatcher.give sub.id completed).replayed.contains sub.id = true := by
    have htold : (u.dispatcher.give sub.id completed).replayed = u.dispatcher.replayed :=
      Dispatcher.replayed_tell u.dispatcher sub.id (some completed)
    rw [htold, replayed_of_bare hbare, Table.contains, Table.get?_insert, if_pos rfl]
    rfl
  rw [replay_eq hrecorded hasked hnew, hdelivered]
  exact ⟨⟨completed, hcompleted, Dispatcher.listener?_give hstill hholding completed⟩, hset⟩

/-- A subscription that asked for replay may be attached for the first time, and there is room for what
is replayed and for the end of it. -/
structure ReplayDue (s : Service) (sub : Subscription) (since : Instant) (log : ReplayLog) (capacity : Nat) : Prop where
  running : s.dispatcher.running = true
  recorded : s.registry.lookup sub.id = some sub
  active : sub.state = .active
  asked : sub.replayStartTime = some since
  kept : s.streams.log? sub.stream = some log
  room : (replayable s.schema sub since log).length < capacity

/-- While the subscription is active a replay brings what passes its filter. -/
theorem brought_eq_replayable {s : Service} {sub : Subscription} {since : Instant} {log : ReplayLog} {capacity : Nat}
    (hdue : s.ReplayDue sub since log capacity) :
    ((s.streams.replay sub.stream since sub.stopTime).filterMap fun n => (s.verdict sub.id sub.stream n).message?) =
      replayable s.schema sub since log := by
  have hverdict : (fun n => (s.verdict sub.id sub.stream n).message?) =
      expected sub.id sub.resolved sub.encoding s.schema := by
    funext n
    unfold verdict
    rw [hdue.recorded]
    exact Subscription.message?_verdict rfl hdue.active s.schema n
  rw [hverdict, Streams.replay, hdue.kept]
  rfl

/-- The first attachment opens a listener, and it holds what is replayed and the end of it. -/
theorem listener?_first_attach {s : Service} {sub : Subscription} {since : Instant} {log : ReplayLog} {capacity : Nat}
    (hsound : s.dispatcher.Sound) (hdue : s.ReplayDue sub since log capacity) (hnew : Untouched sub.id s)
    (replace : Bool) :
    let t := s.move (.attach sub.id capacity replace)
    (∃ completed, Message.encode sub.id sub.encoding s.now (StateChange.replayCompleted sub.id).toNode s.schema =
        .ok completed ∧
      t.dispatcher.listener? s.dispatcher.listeners.size =
        some (.holding capacity (replayable s.schema sub since log ++ [completed]))) ∧
    Replayed sub.id t := by
  intro t
  let u : Service := { s with dispatcher := s.dispatcher.seat sub.id capacity }
  have hnone : s.dispatcher.attached.get? sub.id = none := hnew.attached
  have ht : t = u.replay sub.id := by
    have hclosed : s.dispatcher.hasOpenListener sub.id = false := by
      rw [Dispatcher.hasOpenListener, Dispatcher.attachedTo?, hnone]
      rfl
    show (s.attach sub.id capacity replace).2.2 = _
    rw [attach_eq_ite hsound, if_pos ⟨hdue.running, .inr hclosed⟩]
  have hu : u.ReplayDue sub since log capacity :=
    ⟨(Dispatcher.running_seat ..).trans hdue.running, hdue.recorded, hdue.active, hdue.asked, hdue.kept, hdue.room⟩
  have hreplayed : u.dispatcher.replayed.get? sub.id = none := by
    show (s.dispatcher.seat sub.id capacity).replayed.get? sub.id = none
    rw [Dispatcher.replayed_seat]
    exact hnew.replayed
  have hattached : u.dispatcher.attached.get? sub.id = some s.dispatcher.listeners.size := by
    rw [Dispatcher.get?_attached_seat, if_pos rfl]
  obtain ⟨⟨completed, hcompleted, hheld⟩, hset⟩ :=
    listener?_replay hu.recorded hu.asked hreplayed hattached (hsound.listener?_seat sub.id capacity)
  have hroom := hdue.room
  rw [brought_eq_replayable hu,
    List.take_of_length_le (by rw [List.length_append, List.length_singleton]; exact hroom)] at hheld
  rw [ht]
  exact ⟨⟨completed, hcompleted, hheld⟩, fun _ => hset⟩

end Service

end YangSubscriptions
