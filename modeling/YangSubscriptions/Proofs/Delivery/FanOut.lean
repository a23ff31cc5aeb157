import YangSubscriptions.Proofs.Delivery.Order
import YangSubscriptions.Proofs.Delivery.Steps

/-!
# Fan-out

`fan_out` states what reaches a subscription through the feeds of its service, however feeds and
commands are interleaved. A notification passes the feed of its own stream and that of the default
stream, and a subscription heeds only the feed of its stream, so it meets each notification at most once;
feeds keep their order and lose nothing, so a subscription that stays active with room in its listener
receives exactly what its filter lets through.
-/

namespace YangSubscriptions

/-- What a subscription on these terms is sent for a notification: what its filter leaves of the body,
if that can be encoded. -/
def expected (id : SubscriptionId) (filter : ResolvedFilter) (encoding : Encoding) (schema : Schema)
    (n : Notification) : Option Message :=
  (filter.apply n.body).bind fun body => (Message.encode id encoding n.time body schema).toOption

namespace Subscription

variable {sub : Subscription} {stream : String}

theorem message?_verdict (hstream : sub.stream = stream) (hactive : sub.state = .active) (schema : Schema)
    (n : Notification) :
    (sub.verdict schema stream n).message? = expected sub.id sub.resolved sub.encoding schema n := by
  unfold verdict expected
  rw [if_neg (by simp [hstream, hactive])]
  cases sub.resolved.apply n.body with
  | none => rfl
  | some body =>
    simp only [Option.bind_some]
    cases Message.encode sub.id sub.encoding n.time body schema <;> rfl

theorem verdict_of_stream_ne (h : sub.stream ≠ stream) (schema : Schema) (n : Notification) :
    sub.verdict schema stream n = .unaffected := if_pos (.inl h)

theorem stream_of_verdict {schema : Schema} {n : Notification} (h : sub.verdict schema stream n ≠ .unaffected) :
    sub.stream = stream := by
  by_cases hstream : sub.stream = stream
  · exact hstream
  · exact absurd (verdict_of_stream_ne hstream schema n) h

end Subscription

namespace Service

/-! ## What a listener receives live -/

/-- What a listener accepts in a move that takes something from a feed. -/
def live (s : Service) (l : ListenerId) : Move → List Message
  | .dispatch stream => s.gained l (.dispatch stream)
  | _ => []

/-- What it accepts that way, move after move. -/
def liveAlong (l : ListenerId) : Service → List Move → List Message
  | _, [] => []
  | s, m :: ms => s.live l m ++ liveAlong l (s.move m) ms

theorem live_of_not_dispatch (s : Service) (l : ListenerId) {m : Move} (h : ∀ stream, m ≠ .dispatch stream) :
    s.live l m = [] := by
  cases m with
  | dispatch stream => exact absurd rfl (h stream)
  | _ => rfl

theorem taken_of_not_dispatch (s : Service) (stream : String) {m : Move} (h : ∀ stream', m ≠ .dispatch stream') :
    s.taken stream m = [] := by
  cases m with
  | dispatch stream' => exact absurd rfl (h stream')
  | _ => rfl

/-- A listener belongs to a subscription: it is attached to no other. -/
structure Owns (s : Service) (id : SubscriptionId) (l : ListenerId) : Prop where
  known : l < s.dispatcher.listeners.size
  only : ∀ id', s.dispatcher.attached.get? id' = some l → id' = id

theorem owns_of_attached {s : Service} (h : s.dispatcher.Sound) {id : SubscriptionId} {l : ListenerId}
    (hid : s.dispatcher.attached.get? id = some l) : s.Owns id l :=
  ⟨h.known id l hid, fun id' hid' => h.exclusive id' id l hid' hid⟩

theorem Owns.move {s : Service} (hsound : s.dispatcher.Sound) {id : SubscriptionId} {l : ListenerId} (h : s.Owns id l)
    (m : Move) : (s.move m).Owns id l := by
  have hkeeps := keeps_move hsound m
  exact ⟨Nat.lt_of_lt_of_le h.known hkeeps.size_le, fun id' hid' => h.only id' (hkeeps.attached id' l h.known hid')⟩

/-- What the dispatch of a feed brings to the listener of a subscription. -/
theorem live_dispatch {s : Service} (h : s.dispatcher.Sound) {id : SubscriptionId} {l : ListenerId}
    (hid : s.dispatcher.attached.get? id = some l) (stream : String) :
    s.live l (.dispatch stream) = (s.taken stream (.dispatch stream)).filterMap fun (t, n) =>
      if s.dispatcher.takes l then (t.verdict id stream n).message? else none := by
  show s.gained l (.dispatch stream) = _
  rw [taken_dispatch]
  cases hhead : (s.router.queue stream).head? with
  | none => exact gained_of_quiet (congrArg (fun s => s.dispatcher.accepted l) (dispatch_of_head?_none hhead))
  | some n =>
    have haccepted : (s.move (.dispatch stream)).dispatcher.accepted l = _ := accepted_dispatch h hid hhead
    rw [gained_of_accepted haccepted]
    cases s.dispatcher.takes l with
    | false => rfl
    | true => cases hmessage : (s.verdict id stream n).message? <;> simp [hmessage]

/-! ## At most once -/

/-- The record of a subscription is on a stream, as long as there is one. -/
def OnStream (id : SubscriptionId) (stream : String) (s : Service) : Prop :=
  ∀ sub, s.registry.lookup id = some sub → sub.stream = stream

theorem verdict_of_onStream {id : SubscriptionId} {stream stream' : String} {s : Service} (h : OnStream id stream s)
    (hne : stream' ≠ stream) (n : Notification) : s.verdict id stream' n = .unaffected := by
  unfold verdict
  cases hlookup : s.registry.lookup id with
  | none => rfl
  | some sub =>
    refine Subscription.verdict_of_stream_ne ?_ s.schema n
    rw [h sub hlookup]
    exact Ne.symm hne

/-- A move brings to a listener no more than the feed of the subscription's stream yields. -/
theorem live_sublist {s : Service} (hsound : s.dispatcher.Sound) {id : SubscriptionId} {l : ListenerId}
    (howns : s.Owns id l) {stream : String} (hstream : OnStream id stream s) (m : Move) :
    (s.live l m).Sublist ((s.taken stream m).filterMap fun (t, n) => (t.verdict id stream n).message?) := by
  by_cases hdispatch : ∃ stream', m = .dispatch stream'
  · obtain ⟨stream', rfl⟩ := hdispatch
    by_cases hid : s.dispatcher.attached.get? id = some l
    · rw [live_dispatch hsound hid]
      by_cases h : stream' = stream
      · subst h
        rw [taken_dispatch]
        cases (s.router.queue stream').head? with
        | none => exact List.Sublist.slnil
        | some n =>
          cases s.dispatcher.takes l with
          | false => exact List.nil_sublist _
          | true => exact List.Sublist.refl _
      · have hnone : (s.taken stream' (.dispatch stream')).filterMap (fun (t, n) =>
            if s.dispatcher.takes l then (t.verdict id stream' n).message? else none) = [] := by
          rw [taken_dispatch]
          cases (s.router.queue stream').head? with
          | none => rfl
          | some n =>
            have hverdict := verdict_of_onStream hstream h n
            simp [hverdict, Verdict.message?]
        rw [hnone]
        exact List.nil_sublist _
    · have hnobody : ∀ id', s.dispatcher.attached.get? id' ≠ some l := by
        intro id' hid'
        obtain rfl := howns.only id' hid'
        exact hid hid'
      have hlive : s.live l (.dispatch stream') = [] :=
        gained_of_quiet (accepted_dispatch_of_unattached hnobody stream')
      rw [hlive]
      exact List.nil_sublist _
  · rw [s.live_of_not_dispatch l fun stream' he => hdispatch ⟨stream', he⟩]
    exact List.nil_sublist _

theorem liveAlong_sublist {s : Service} (h : s.dispatcher.Sound) {id : SubscriptionId} {l : ListenerId}
    (howns : s.Owns id l) {stream : String} {ms : List Move} (hstream : Along (OnStream id stream) s ms) :
    (liveAlong l s ms).Sublist
      ((takenAlong stream s ms).filterMap fun (t, n) => (t.verdict id stream n).message?) := by
  induction ms generalizing s with
  | nil => exact List.Sublist.slnil
  | cons m ms ih =>
    rw [liveAlong, takenAlong, List.filterMap_append]
    exact (live_sublist h howns hstream.1 m).append (ih (sound_move h m) (howns.move h m) hstream.2)

/-! ## Exactly once -/

/-- A subscription is active on fixed terms, with a listener that is open and not full. -/
structure Steady (id : SubscriptionId) (l : ListenerId) (stream : String) (filter : ResolvedFilter)
    (encoding : Encoding) (s : Service) : Prop where
  attached : s.dispatcher.attached.get? id = some l
  takes : s.dispatcher.takes l = true
  record : ∃ sub, s.registry.lookup id = some sub ∧ sub.id = id ∧ sub.stream = stream ∧ sub.resolved = filter ∧
    sub.encoding = encoding ∧ sub.state = .active

section
variable {id : SubscriptionId} {l : ListenerId} {stream : String} {filter : ResolvedFilter} {encoding : Encoding}

theorem Steady.message?_verdict {s : Service} (h : Steady id l stream filter encoding s) (n : Notification) :
    (s.verdict id stream n).message? = expected id filter encoding s.schema n := by
  obtain ⟨sub, hlookup, rfl, rfl, rfl, rfl, hactive⟩ := h.record
  unfold verdict
  rw [hlookup]
  exact Subscription.message?_verdict rfl hactive s.schema n

theorem Steady.onStream {s : Service} (h : Steady id l stream filter encoding s) : OnStream id stream s := by
  obtain ⟨sub, hlookup, -, hstream, -⟩ := h.record
  intro sub' hlookup'
  rw [hlookup] at hlookup'
  obtain rfl := Option.some.inj hlookup'
  exact hstream

theorem live_eq {s : Service} (hsound : s.dispatcher.Sound) (h : Steady id l stream filter encoding s) (m : Move) :
    s.live l m = (s.taken stream m).filterMap fun (t, n) => expected id filter encoding t.schema n := by
  by_cases hdispatch : ∃ stream', m = .dispatch stream'
  · obtain ⟨stream', rfl⟩ := hdispatch
    by_cases hne : stream' = stream
    · subst hne
      rw [live_dispatch hsound h.attached, taken_dispatch]
      cases (s.router.queue stream').head? with
      | none => rfl
      | some n =>
        have hmessage := h.message?_verdict n
        simp only [h.takes, if_true, Option.toList_some, List.map_cons, List.map_nil, List.filterMap_cons, hmessage]
        rfl
    · have hsub := live_sublist hsound (owns_of_attached hsound h.attached) h.onStream (.dispatch stream')
      rw [taken_dispatch_of_ne s hne] at hsub ⊢
      exact List.sublist_nil.1 hsub
  · have hm : ∀ stream', m ≠ .dispatch stream' := fun stream' he => hdispatch ⟨stream', he⟩
    rw [s.live_of_not_dispatch l hm, s.taken_of_not_dispatch stream hm]
    rfl

theorem liveAlong_eq {s : Service} (h : s.dispatcher.Sound) {ms : List Move}
    (hsteady : Along (Steady id l stream filter encoding) s ms) :
    liveAlong l s ms = (takenAlong stream s ms).filterMap fun (t, n) => expected id filter encoding t.schema n := by
  induction ms generalizing s with
  | nil => rfl
  | cons m ms ih =>
    rw [liveAlong, takenAlong, List.filterMap_append, live_eq h hsteady.1, ih (sound_move h m) hsteady.2]

/-- Under one schema it does not matter when a notification is taken. -/
theorem liveAlong_of_schema {s : Service} (h : s.dispatcher.Sound) {schema : Schema} {ms : List Move}
    (hsteady : Along (fun s => Steady id l stream filter encoding s ∧ s.schema = schema) s ms) :
    liveAlong l s ms = ((takenAlong stream s ms).map (·.2)).filterMap (expected id filter encoding schema) := by
  have hschema : Along (fun s => s.schema = schema) s ms := hsteady.imp fun _ hs => hs.2
  rw [liveAlong_eq h (hsteady.imp fun _ hs => hs.1), List.filterMap_map]
  refine List.filterMap_congr fun e he => ?_
  show expected id filter encoding e.1.schema e.2 = expected id filter encoding schema e.2
  rw [along_of_mem_takenAlong hschema e he]

end

/-! ## Fan-out -/

/-- What a state and the moves from it promise about feeds and listeners. -/
structure FanOut (s : Service) (ms : List Move) : Prop where
  /-- A notification is offered to a subscription only through the feed of its stream, which carries it. -/
  offered : ∀ stream n r id, s.router.take? stream = some (n, r) → s.verdict id stream n ≠ .unaffected →
    ∃ sub, s.registry.lookup id = some sub ∧ sub.stream = stream ∧ Carries stream n.stream
  /-- So are those that are offered for replay. -/
  replayed : ∀ stream start stop, ∀ n ∈ s.streams.replay stream start stop, Carries stream n.stream
  /-- A feed yields what was published for it in that order, each at most once. -/
  inOrder : ∀ stream, ((takenAlong stream s ms).map (·.2) ++ (s.moves ms).router.queue stream).Sublist
    (s.router.queue stream ++ publishedOn stream ms)
  /-- Until the dispatcher is stopped the feed of a registered stream yields all of it. -/
  lossless : ∀ stream, s.streams.contains stream = true → (s.moves ms).dispatcher.running = true →
    (takenAlong stream s ms).map (·.2) ++ (s.moves ms).router.queue stream =
      s.router.queue stream ++ publishedOn stream ms
  /-- Whatever happens to its subscription, a listener accepts at most one message for each. -/
  atMostOnce : ∀ id l stream, s.dispatcher.attached.get? id = some l → Along (OnStream id stream) s ms →
    (liveAlong l s ms).Sublist
      ((takenAlong stream s ms).filterMap fun (t, n) => (t.verdict id stream n).message?)
  /-- And one for each that the filter accepts and the encoding can render, if the subscription stays as it is. -/
  exactlyOnce : ∀ id l stream filter encoding, Along (Steady id l stream filter encoding) s ms →
    liveAlong l s ms = (takenAlong stream s ms).filterMap fun (t, n) => expected id filter encoding t.schema n
  /-- So, under one schema, what it received and what waits for it is what waited and what was published. -/
  complete : ∀ id l stream filter encoding schema, s.streams.contains stream = true →
    (s.moves ms).dispatcher.running = true →
    Along (fun s => Steady id l stream filter encoding s ∧ s.schema = schema) s ms →
    liveAlong l s ms ++ ((s.moves ms).router.queue stream).filterMap (expected id filter encoding schema) =
      (s.router.queue stream ++ publishedOn stream ms).filterMap (expected id filter encoding schema)
  /-- What a listener accepted stays, and more is added. -/
  grows : ∀ id l m, s.dispatcher.attached.get? id = some l →
    (s.move m).dispatcher.accepted l = s.dispatcher.accepted l ++ s.gained l m
  /-- Nothing else reaches it but the state changes of the subscription. -/
  otherwise : ∀ id l m, s.dispatcher.attached.get? id = some l → (∀ stream, m ≠ .dispatch stream) →
    s.gained l m = [] ∨ ∃ change encoding message, m = .deliver change encoding ∧ change.id = id ∧
      Message.encode id encoding s.now change.toNode s.schema = .ok message ∧ s.gained l m = [message]

theorem Wiring.fanOut {s : Service} (h : s.Wiring) (ms : List Move) : s.FanOut ms where
  offered stream n r id htake hverdict := by
    have hn : n ∈ s.router.queue stream := by
      rw [Router.take?_eq] at htake
      obtain ⟨n', hhead, he⟩ := Option.map_eq_some_iff.1 htake
      obtain ⟨rfl, -⟩ := Prod.mk.inj he
      exact List.mem_of_head? hhead
    unfold verdict at hverdict
    cases hlookup : s.registry.lookup id with
    | none =>
      rw [hlookup] at hverdict
      exact absurd rfl hverdict
    | some sub =>
      rw [hlookup] at hverdict
      exact ⟨sub, rfl, Subscription.stream_of_verdict hverdict, h.router.carries hn⟩
  replayed stream _ _ n hn := h.kept stream n (mem_kept_of_replay hn)
  inOrder stream := yielded_sublist h stream ms
  lossless stream hstream hrunning := yielded_eq h hstream hrunning
  atMostOnce id l stream hid hstream :=
    liveAlong_sublist h.dispatcher (owns_of_attached h.dispatcher hid) hstream
  exactlyOnce id l stream filter encoding hsteady := liveAlong_eq h.dispatcher hsteady
  complete id l stream filter encoding schema hstream hrunning hsteady := by
    rw [liveAlong_of_schema h.dispatcher hsteady, ← List.filterMap_append, yielded_eq h hstream hrunning]
  grows id l m hid := accepted_move h.dispatcher (h.dispatcher.known id l hid) m
  otherwise id l m hid hm := by
    rcases gained_of_not_dispatch h.dispatcher (h.dispatcher.known id l hid) hm with hnone | hsome
    · exact .inl hnone
    · obtain ⟨change, encoding, message, he, hid', hencode, hgained⟩ := hsome
      obtain rfl := h.dispatcher.exclusive change.id id l hid' hid
      exact .inr ⟨change, encoding, message, he, rfl, hencode, hgained⟩

/-- Exactly-once, in-order fan-out of the service as it is wired at its start. -/
theorem fan_out (now : Instant) (schema : Schema) (configs : List StreamConfig) (before during : List Move) :
    FanOut ((start now schema configs).moves before) during :=
  (moves_preserve (fun _ m h => h.move m) before (wiring_start now schema configs)).fanOut during

/-- A service where a session asked for alarms and listens to them. -/
def listening : Service :=
  (start ⟨0, 0⟩ .empty [⟨"alarms", none, 0⟩]).run
    [.request ⟨1, "", none⟩ (.establish ⟨some "alarms", none, none, none, none⟩),
      .attach firstSubscriptionId 8 false]

def alarm : Notification := ⟨"alarms", ⟨1, 0⟩, .container (.bare "alarm") []⟩

/-- The alarm passes the feed of the default stream before its own; something else is published meanwhile. -/
def throughBothFeeds : List Move :=
  [.publish alarm, .dispatch netconfStream, .publish ⟨"elsewhere", ⟨2, 0⟩, .container (.bare "news") []⟩,
    .dispatch "alarms", .dispatch netconfStream]

/-- It reaches the listener once. -/
theorem fan_out_throughBothFeeds :
    ∃ m, expected firstSubscriptionId .all .json .empty alarm = some m ∧
      liveAlong 0 listening throughBothFeeds = [m] := by
  obtain ⟨before, hbefore⟩ : (start ⟨0, 0⟩ .empty [⟨"alarms", none, 0⟩]).Moved listening := moved_run (by simp) _
  have hfan := fan_out ⟨0, 0⟩ .empty [⟨"alarms", none, 0⟩] before throughBothFeeds
  rw [hbefore] at hfan
  let sub : Subscription :=
    ⟨firstSubscriptionId, "alarms", none, .all, .json, none, none, ⟨1, "", none⟩, .active, none⟩
  have hsteady : ∀ s : Service, s.dispatcher.attached.get? firstSubscriptionId = some 0 → s.dispatcher.takes 0 = true →
      s.registry.lookup firstSubscriptionId = some sub → s.schema = .empty →
      Steady firstSubscriptionId 0 "alarms" .all .json s ∧ s.schema = .empty :=
    fun s hattached htakes hrecord hschema => ⟨⟨hattached, htakes, sub, hrecord, rfl, rfl, rfl, rfl, rfl⟩, hschema⟩
  have halong : Along (fun s => Steady firstSubscriptionId 0 "alarms" .all .json s ∧ s.schema = .empty) listening
      throughBothFeeds :=
    ⟨hsteady _ rfl rfl rfl rfl, hsteady _ rfl rfl rfl rfl, hsteady _ rfl rfl rfl rfl, hsteady _ rfl rfl rfl rfl,
      hsteady _ rfl rfl rfl rfl, trivial⟩
  have hcomplete := hfan.complete firstSubscriptionId 0 "alarms" .all .json .empty rfl rfl halong
  obtain ⟨m, hm⟩ : ∃ m, expected firstSubscriptionId .all .json .empty alarm = some m :=
    Option.isSome_iff_exists.1 (by decide +kernel)
  have hqueue : (listening.moves throughBothFeeds).router.queue "alarms" = [] := rfl
  have hpublished : listening.router.queue "alarms" ++ publishedOn "alarms" throughBothFeeds = [alarm] := rfl
  rw [hqueue, hpublished, List.filterMap_nil, List.append_nil, List.filterMap_cons_some hm] at hcomplete
  exact ⟨m, hm, hcomplete⟩

end Service

end YangSubscriptions
