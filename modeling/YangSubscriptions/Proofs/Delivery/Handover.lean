import YangSubscriptions.Proofs.Delivery.Logs
import YangSubscriptions.Proofs.Delivery.Replay

/-!
# From replay to live delivery

`replay_hands_over` states what a subscription that asked for replay receives, however its first
attachment is interleaved with everything else: what the log of its stream holds at that moment, then
that the replay is completed, then what the feed yields from that moment on. The log holds the latest
of what the feed yielded before (`log_eq`), so nothing is missed between the two and nothing comes twice.
-/

namespace YangSubscriptions

namespace Service

/-! ## What is owed live -/

/-- What is owed to a subscription in a move: what its filter lets through of what the feed of its stream
yields, and what it is told about itself. -/
def owed (sub : Subscription) (s : Service) : Move → List Message
  | .deliver change encoding =>
    if change.id = sub.id then (Message.encode sub.id encoding s.now change.toNode s.schema).toOption.toList else []
  | m => (s.taken sub.stream m).filterMap fun (t, n) => expected sub.id sub.resolved sub.encoding t.schema n

def owedAlong (sub : Subscription) : Service → List Move → List Message
  | _, [] => []
  | s, m :: ms => owed sub s m ++ owedAlong sub (s.move m) ms

/-- Does the subscription stay active on these terms, with room in its listener? -/
def Stays (sub : Subscription) (l : ListenerId) (s : Service) : Prop :=
  Steady sub.id l sub.stream sub.resolved sub.encoding s

theorem gained_eq_owed {s : Service} (hsound : s.dispatcher.Sound) {sub : Subscription} {l : ListenerId}
    (h : Stays sub l s) (m : Move) : s.gained l m = owed sub s m := by
  have hl : l < s.dispatcher.listeners.size := hsound.known sub.id l h.attached
  cases m with
  | dispatch stream => exact live_eq hsound h (.dispatch stream)
  | deliver change encoding =>
    have hgained := gained_of_accepted (m := .deliver change encoding) (accepted_deliver hl change encoding)
    rw [hgained]
    by_cases hid : change.id = sub.id
    · rw [hid, owed, if_pos hid, if_pos ⟨h.attached, h.takes⟩]
    · have hother : s.dispatcher.attached.get? change.id ≠ some l := fun hattached =>
        hid (hsound.exclusive change.id sub.id l hattached h.attached)
      rw [owed, if_neg hid, if_neg fun hboth => hother hboth.1]
  | _ => exact gained_of_quiet ((quiet_move hsound rfl).accepted l hl)

/-- The listener accepts what is owed, and nothing else. -/
theorem accepted_moves {s : Service} (hsound : s.dispatcher.Sound) {sub : Subscription} {l : ListenerId}
    {ms : List Move} (h : Along (Stays sub l) s ms) :
    (s.moves ms).dispatcher.accepted l = s.dispatcher.accepted l ++ owedAlong sub s ms := by
  induction ms generalizing s with
  | nil => exact (List.append_nil _).symm
  | cons m ms ih =>
    have hl : l < s.dispatcher.listeners.size := hsound.known sub.id l h.1.attached
    rw [moves_cons, ih (sound_move hsound m) h.2, accepted_move hsound hl, gained_eq_owed hsound h.1, owedAlong,
      List.append_assoc]

/-- As long as nothing is told about the subscription, what is owed comes from the feed. -/
theorem owedAlong_eq {sub : Subscription} {ms : List Move}
    (h : ∀ change encoding, .deliver change encoding ∈ ms → change.id ≠ sub.id) (s : Service) :
    owedAlong sub s ms =
      (takenAlong sub.stream s ms).filterMap fun (t, n) => expected sub.id sub.resolved sub.encoding t.schema n := by
  induction ms generalizing s with
  | nil => rfl
  | cons m ms ih =>
    have howed : owed sub s m =
        (s.taken sub.stream m).filterMap fun (t, n) => expected sub.id sub.resolved sub.encoding t.schema n := by
      cases m with
      | deliver change encoding => exact if_neg (h change encoding List.mem_cons_self)
      | _ => rfl
    rw [owedAlong, takenAlong, List.filterMap_append, howed,
      ih fun change encoding hmem => h change encoding (List.mem_cons_of_mem _ hmem)]

/-! ## The handover -/

/-- What a first attachment promises, of the moves before it from an origin and of those during it. -/
structure Handover (origin : Service) (before : List Move) (attach : Move) (during : List Move) (sub : Subscription)
    (since : Instant) (log : ReplayLog) : Prop where
  /-- The listener receives the replay, the end of it, and then what is owed. -/
  received : let s := origin.moves before
    ∃ completed, Message.encode sub.id sub.encoding s.now (StateChange.replayCompleted sub.id).toNode s.schema =
        .ok completed ∧
      ((s.move attach).moves during).dispatcher.accepted s.dispatcher.listeners.size =
        replayable s.schema sub since log ++ completed :: owedAlong sub (s.move attach) during
  /-- That is what the feed yields from then on, unless something is told about the subscription itself. -/
  live : let t := (origin.moves before).move attach
    (∀ change encoding, .deliver change encoding ∈ during → change.id ≠ sub.id) →
      owedAlong sub t during = (takenAlong sub.stream t during).filterMap fun (u, n) =>
        expected sub.id sub.resolved sub.encoding u.schema n
  /-- The feed yields what is in the log and what is taken later one after the other, without a gap and nothing
  twice; before that stands only what a full log has let go of. -/
  seamless : ∃ forgotten, (forgotten = [] ∨ log.notifications.length = log.capacity) ∧
    (takenAlong sub.stream origin (before ++ attach :: during)).map (·.2) =
      forgotten ++ log.notifications ++ (takenAlong sub.stream ((origin.moves before).move attach) during).map (·.2)
  /-- And it yields all that was published for it, but for what still waits. -/
  lossless : (origin.moves (before ++ attach :: during)).dispatcher.running = true →
    (takenAlong sub.stream origin (before ++ attach :: during)).map (·.2) ++
        (origin.moves (before ++ attach :: during)).router.queue sub.stream =
      publishedOn sub.stream (before ++ attach :: during)
  /-- Attaching the subscription again, whenever and however often, brings nothing to any listener. -/
  once : ∀ later capacity replace, (∀ m ∈ later, m.forgets sub.id = false) →
    let u := ((origin.moves before).move attach).moves later
    ∀ l, (u.move (.attach sub.id capacity replace)).dispatcher.accepted l = u.dispatcher.accepted l

/-- A subscription that asked for replay receives what its filter lets through of what the log of its stream
holds when it is attached for the first time, then that the replay is completed, then what its filter lets
through of what the feed yields afterwards; no notification is missed between the two, none comes both
ways, and nothing is replayed again. The feeds and commands may be interleaved in any way, as long as the
subscription stays active on its terms with room in its listener. -/
theorem replay_hands_over (now : Instant) (schema : Schema) (configs : List StreamConfig) (before during : List Move)
    (sub : Subscription) (since : Instant) (log : ReplayLog) (capacity : Nat) (replace : Bool)
    (hfirst : ∀ capacity replace, .attach sub.id capacity replace ∉ before)
    (hdue : ((start now schema configs).moves before).ReplayDue sub since log capacity)
    (hstays : Along (Stays sub ((start now schema configs).moves before).dispatcher.listeners.size)
      (((start now schema configs).moves before).move (.attach sub.id capacity replace)) during) :
    Handover (start now schema configs) before (.attach sub.id capacity replace) during sub since log := by
  let origin := start now schema configs
  let s := origin.moves before
  let t := s.move (.attach sub.id capacity replace)
  have horigin : origin.Wiring := wiring_start now schema configs
  have hwiring : s.Wiring := moves_preserve (fun _ m h => h.move m) before horigin
  have hsound : t.dispatcher.Sound := sound_move hwiring.dispatcher _
  have hnew : Untouched sub.id s := Untouched.moves ⟨rfl, rfl⟩ hfirst
  obtain ⟨⟨completed, hcompleted, hheld⟩, hreplayed⟩ :=
    listener?_first_attach hwiring.dispatcher hdue hnew replace
  constructor
  · refine ⟨completed, hcompleted, ?_⟩
    have haccepted : t.dispatcher.accepted s.dispatcher.listeners.size =
        replayable s.schema sub since log ++ [completed] := by
      rw [Dispatcher.accepted, hheld]
      rfl
    rw [accepted_moves hsound hstays, haccepted, List.append_assoc, List.singleton_append]
  · exact fun h => owedAlong_eq h t
  · have hholds : log.Holds ((takenAlong sub.stream origin before).map (·.2)) := log_eq hdue.kept
    obtain ⟨forgotten, hfull, hsplit⟩ := hholds.exists_forgotten
    have htaken :
        takenAlong sub.stream s (.attach sub.id capacity replace :: during) = takenAlong sub.stream t during := rfl
    exact ⟨forgotten, hfull, by rw [takenAlong_append, List.map_append, hsplit, htaken]⟩
  · intro hrunning
    have hstream : origin.streams.contains sub.stream = true := by
      rw [← contains_moves origin before]
      exact Streams.contains_of_log? hdue.kept
    rw [yielded_eq horigin hstream hrunning, queue_start, List.nil_append]
  · intro later capacity' replace' hlater u l
    have hu : u.dispatcher.Sound :=
      moves_preserve (I := fun s => s.dispatcher.Sound) (fun _ m h => sound_move h m) later hsound
    exact (hreplayed.moves hlater).accepted_attach hu capacity' replace' l

def clearance : Notification := ⟨"alarms", ⟨2, 0⟩, .container (.bare "clearance") []⟩

/-- A session asks for alarms from the start on. One alarm is in the log, and its clearance still waits in the
feed. -/
def aroundFirstAttachment : List Move :=
  [.alter ((start ⟨0, 0⟩ .empty [⟨"alarms", none, 4⟩]).run
      [.request ⟨1, "", none⟩ (.establish ⟨some "alarms", none, none, none, some ⟨0, 0⟩⟩)]),
    .publish alarm, .dispatch "alarms", .publish clearance]

/-- The alarm is replayed and the clearance comes live. -/
theorem replay_hands_over_aroundFirstAttachment :
    let s := (start ⟨0, 0⟩ .empty [⟨"alarms", none, 4⟩]).moves aroundFirstAttachment
    ∃ first completed second, expected firstSubscriptionId .all .json .empty alarm = some first ∧
      expected firstSubscriptionId .all .json .empty clearance = some second ∧
      ((s.move (.attach firstSubscriptionId 8 false)).moves
        [.dispatch "alarms", .dispatch netconfStream]).dispatcher.accepted 0 = [first, completed, second] := by
  intro s
  let sub : Subscription :=
    ⟨firstSubscriptionId, "alarms", none, .all, .json, none, some ⟨0, 0⟩, ⟨1, "", none⟩, .active, none⟩
  let t := s.move (.attach firstSubscriptionId 8 false)
  obtain ⟨first, hfirst⟩ : ∃ m, expected firstSubscriptionId .all .json .empty alarm = some m :=
    Option.isSome_iff_exists.1 (by decide +kernel)
  obtain ⟨second, hsecond⟩ : ∃ m, expected firstSubscriptionId .all .json .empty clearance = some m :=
    Option.isSome_iff_exists.1 (by decide +kernel)
  have hreplayable : replayable s.schema sub ⟨0, 0⟩ ⟨4, ⟨0, 0⟩, [alarm]⟩ = [first] := by
    show [alarm].filterMap (expected firstSubscriptionId .all .json .empty) = [first]
    rw [List.filterMap_cons_some hfirst, List.filterMap_nil]
  have hdue : s.ReplayDue sub ⟨0, 0⟩ ⟨4, ⟨0, 0⟩, [alarm]⟩ 8 :=
    ⟨rfl, rfl, rfl, rfl, rfl, by rw [hreplayable, List.length_singleton]; decide⟩
  have hstays : ∀ u : Service, u.dispatcher.attached.get? firstSubscriptionId = some 0 → u.dispatcher.takes 0 = true →
      u.registry.lookup firstSubscriptionId = some sub → Stays sub 0 u :=
    fun u hattached htakes hrecord => ⟨hattached, htakes, sub, hrecord, rfl, rfl, rfl, rfl, rfl⟩
  have hover := replay_hands_over ⟨0, 0⟩ .empty [⟨"alarms", none, 4⟩] aroundFirstAttachment
    [.dispatch "alarms", .dispatch netconfStream] sub ⟨0, 0⟩ ⟨4, ⟨0, 0⟩, [alarm]⟩ 8 false
    (by simp [aroundFirstAttachment]) hdue
    ⟨hstays _ (by decide +kernel) (by decide +kernel) rfl,
      hstays _ (by decide +kernel) (by decide +kernel) rfl, trivial⟩
  obtain ⟨completed, -, hreceived⟩ := hover.received
  have howed : owedAlong sub t [.dispatch "alarms", .dispatch netconfStream] = [second] := by
    rw [hover.live (by simp)]
    show [clearance].filterMap (expected firstSubscriptionId .all .json .empty) = [second]
    rw [List.filterMap_cons_some hsecond, List.filterMap_nil]
  refine ⟨first, completed, second, hfirst, hsecond, ?_⟩
  rw [← howed]
  rw [hreplayable] at hreceived
  exact hreceived

end Service

end YangSubscriptions
