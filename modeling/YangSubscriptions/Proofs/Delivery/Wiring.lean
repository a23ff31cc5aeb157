import YangSubscriptions.Proofs.Delivery.Moves
import YangSubscriptions.Proofs.Stream.Registry

/-!
# The wiring

A service starts with one feed for each stream. That the feeds are wired to their streams, that nothing
else gets into a feed or into what a stream keeps, and that a running dispatcher has all its feeds,
is preserved by every move (`Wiring.move`).
-/

namespace YangSubscriptions

namespace Service

/-! ## What moves do to the wires -/

/-- The parts of a service that the wiring is about. -/
def wires (s : Service) : Router × Table String EventStream × Bool :=
  (s.router, s.streams.streams, s.dispatcher.running)

theorem wires_of_bare {s t : Service} (h : s.bare = t.bare) : s.wires = t.wires := by
  have hrouter : s.router = t.router := congrArg (fun s => s.router) h
  have hstreams : s.streams = t.streams := congrArg (fun s => s.streams) h
  have hrunning : s.dispatcher.running = t.dispatcher.running := congrArg (fun s => s.dispatcher.running) h
  rw [wires, wires, hrouter, hstreams, hrunning]

/-- Handling a notification moves one feed on and keeps the notification on its stream. -/
theorem wires_dispatch {s : Service} {stream : String} {n : Notification}
    (h : (s.router.queue stream).head? = some n) :
    (s.dispatch stream).wires = (s.router.shift stream, (s.streams.record stream n).streams, s.dispatcher.running) :=
  wires_of_bare (bare_dispatch h)

theorem wires_deliver (s : Service) (change : StateChange) (encoding : Encoding) :
    (s.deliver change encoding).2.wires = s.wires := by
  unfold deliver
  by_cases hattached : s.dispatcher.attached.contains change.id = true
  · simp only [hattached, if_true]
    cases Message.encode change.id encoding s.now change.toNode s.schema with
    | ok m =>
      have hgive : (s.give change.id m).2.wires = s.wires := wires_of_bare (bare_give s change.id m)
      simp only
      split
      · rw [← hgive]
        unfold wires
        simp only [Dispatcher.running_forget]
      · exact hgive
    | error e =>
      simp only
      split
      · unfold wires
        simp only [Dispatcher.running_forget]
      · rfl
  · simp only [hattached]
    rfl

theorem wires_replay (s : Service) (id : SubscriptionId) : (s.replay id).wires = s.wires := by
  rcases s.replay_cases id with ⟨-, he⟩ | ⟨sub, events, -, -, he⟩
  · rw [he]
  · rw [he, wires_deliver, wires_of_bare (bare_foldl_offer (fun n => (id, sub.stream, n)) events _)]
    rfl

theorem wires_attach (s : Service) (id : SubscriptionId) (capacity : Nat) (replace : Bool) :
    (s.attach id capacity replace).2.2.wires = s.wires := by
  rcases s.attach_cases id capacity replace with he | ⟨-, he⟩
  · rw [he]
    rfl
  · rw [he, wires_replay]
    unfold wires
    simp only [Dispatcher.running_seat]

/-- A move that is not for the feeds leaves the wires alone. -/
theorem wires_move (s : Service) {m : Move} (hm : m.touchesFeeds = false) : (s.move m).wires = s.wires := by
  cases m with
  | publish n => cases hm
  | dispatch stream => cases hm
  | attach id capacity replace => exact wires_attach s id capacity replace
  | detach id =>
    show (s.detach id).2.wires = s.wires
    unfold detach
    split
    · unfold wires
      simp only [Dispatcher.running_forget]
    · rfl
  | deliver change encoding => exact wires_deliver s change encoding
  | receive l max =>
    show (s.receive l max).2.wires = s.wires
    unfold receive
    split <;> rfl
  | hangUp l => rfl
  | stop => cases hm
  | alter t => rfl

/-- Stopping ends the feeds and the listeners, once. -/
theorem stop_eq (s : Service) :
    s.move .stop =
      if s.dispatcher.running then { s with dispatcher := s.dispatcher.stop, router := s.router.ended } else s := by
  show s.stop.toOption.getD s = _
  unfold stop
  split <;> rfl

/-! ## The invariant -/

/-- What a stream keeps for replay. -/
def kept (streams : Table String EventStream) (name : String) : List Notification :=
  (((streams.get? name).bind (·.log)).map (·.notifications)).getD []

/-- What is replayed was kept. -/
theorem mem_kept_of_replay {streams : Streams} {name : String} {start : Instant} {stop : Option Instant}
    {n : Notification} (h : n ∈ streams.replay name start stop) : n ∈ kept streams.streams name := by
  unfold Streams.replay Streams.log? at h
  unfold kept
  cases hlog : (streams.streams.get? name).bind (·.log) with
  | none =>
    rw [hlog] at h
    cases h
  | some log =>
    rw [hlog] at h
    exact List.mem_of_mem_filter h

structure Wiring (s : Service) : Prop where
  router : s.router.Wired
  dispatcher : s.dispatcher.Sound
  isOpen : s.dispatcher.running = true → ∀ f ∈ s.router.feeds, f.isOpen = true
  present : s.dispatcher.running = true → ∀ name, s.streams.contains name = true → ∃ f ∈ s.router.feeds, f.name = name
  kept : ∀ name, ∀ n ∈ kept s.streams.streams name, Carries name n.stream

theorem Wiring.of_wires {s t : Service} (h : s.Wiring) (hsound : t.dispatcher.Sound) (hwires : t.wires = s.wires) :
    t.Wiring := by
  simp only [wires, Prod.mk.injEq] at hwires
  obtain ⟨hrouter, hstreams, hrunning⟩ := hwires
  refine ⟨hrouter ▸ h.router, hsound, fun hr => ?_, fun hr name hname => ?_, fun name => ?_⟩
  · rw [hrouter]
    exact h.isOpen (hrunning ▸ hr)
  · rw [hrouter]
    refine h.present (hrunning ▸ hr) name ?_
    rw [← hname, Streams.contains, Streams.contains, hstreams]
  · rw [hstreams]
    exact h.kept name

/-- Recording keeps nothing but what was there and the new notification. -/
theorem mem_record {log : ReplayLog} {n n' : Notification} (h : n' ∈ (log.record n).notifications) :
    n' ∈ log.notifications ∨ n' = n := by
  unfold ReplayLog.record at h
  rcases List.mem_append.1 h with h | h
  · refine .inl ?_
    split at h
    · exact List.mem_of_mem_drop h
    · exact h
  · exact .inr (List.mem_singleton.1 h)

theorem kept_record {streams : Streams} {stream name : String} {n n' : Notification}
    (h : n' ∈ kept (streams.record stream n).streams name) :
    n' ∈ kept streams.streams name ∨ (stream = name ∧ n' = n) := by
  unfold kept Streams.record at *
  rw [Table.get?_modify] at h
  split at h
  · rename_i hname
    cases hget : streams.streams.get? name with
    | none =>
      rw [hget] at h
      cases h
    | some e =>
      rw [hget] at h
      cases hlog : e.log with
      | none => simp [hlog] at h
      | some log =>
        simp only [Option.map_some, Option.bind_some, hlog, Option.getD_some] at h ⊢
        rcases mem_record h with h | h
        · exact .inl h
        · exact .inr ⟨hname, h⟩
  · exact .inl h

theorem contains_record (streams : Streams) (stream : String) (n : Notification) (name : String) :
    (streams.record stream n).contains name = streams.contains name := by
  unfold Streams.contains Streams.record Table.contains
  rw [Table.get?_modify]
  split
  · exact Option.isSome_map
  · rfl

theorem kept_new (now : Instant) (configs : List StreamConfig) (name : String) :
    kept (Streams.new now configs).streams name = [] := by
  show (((Streams.new now configs).log? name).map (·.notifications)).getD [] = []
  rw [Streams.log?_new]
  split <;> rfl

/-- A service that starts is wired. -/
theorem wiring_start (now : Instant) (schema : Schema) (configs : List StreamConfig) :
    (start now schema configs).Wiring := by
  let names := (Streams.new now configs).names
  have hfeeds : (start now schema configs).router.feeds =
      names.map fun name => ⟨name, .forStream name, [], true⟩ := Router.feeds_foldl_subscribe names .empty
  refine ⟨Router.wired_start (Table.keys_nodup _), Dispatcher.sound_empty, fun _ f hf => ?_, fun _ name hname => ?_,
    fun name n hn => ?_⟩
  · rw [hfeeds] at hf
    obtain ⟨name, -, rfl⟩ := List.mem_map.1 hf
    rfl
  · rw [hfeeds]
    exact ⟨_, List.mem_map.2 ⟨name, (Table.mem_keys_iff _ _).2 hname, rfl⟩, rfl⟩
  · have hkept : n ∈ kept (Streams.new now configs).streams name := hn
    rw [kept_new] at hkept
    cases hkept

theorem Wiring.publish {s : Service} (h : s.Wiring) (n : Notification) : (s.move (.publish n)).Wiring := by
  have hrouter : (s.move (.publish n)).router = ⟨(s.router.feeds.filter (·.isOpen)).map fun f => f.hand n⟩ :=
    Router.publish_eq h.router n
  refine ⟨Router.wired_publish h.router n, h.dispatcher, fun _ f hf => ?_, fun hr name hname => ?_, h.kept⟩
  · rw [hrouter] at hf
    obtain ⟨g, hg, rfl⟩ := List.mem_map.1 hf
    rw [Feed.isOpen_hand]
    exact (List.mem_filter.1 hg).2
  · obtain ⟨f, hf, rfl⟩ := h.present hr name hname
    rw [hrouter]
    exact ⟨f.hand n, List.mem_map.2 ⟨f, List.mem_filter.2 ⟨hf, h.isOpen hr f hf⟩, rfl⟩, f.name_hand n⟩

theorem Wiring.dispatch {s : Service} (h : s.Wiring) (stream : String) : (s.dispatch stream).Wiring := by
  cases hhead : (s.router.queue stream).head? with
  | none => rwa [dispatch_of_head?_none hhead]
  | some n =>
    have hcarries : Carries stream n.stream := h.router.carries (List.mem_of_head? hhead)
    have hwires := wires_dispatch hhead
    simp only [wires, Prod.mk.injEq] at hwires
    obtain ⟨hrouter, hstreams, hrunning⟩ := hwires
    refine ⟨?_, sound_dispatch h.dispatcher stream, fun hr f hf => ?_, fun hr name hname => ?_, fun name n' hn' => ?_⟩
    · rw [hrouter]
      exact Router.wired_shift h.router stream
    · rw [hrouter] at hf
      obtain ⟨g, hg, rfl⟩ := List.mem_map.1 hf
      have hopen := h.isOpen (hrunning ▸ hr) g hg
      split <;> exact hopen
    · have hname' : s.streams.contains name = true := by
        rw [← contains_record s.streams stream n, ← hname, Streams.contains, Streams.contains, hstreams]
      obtain ⟨f, hf, rfl⟩ := h.present (hrunning ▸ hr) name hname'
      rw [hrouter]
      refine ⟨_, List.mem_map.2 ⟨f, hf, rfl⟩, ?_⟩
      split <;> rfl
    · rw [hstreams] at hn'
      rcases kept_record hn' with hn' | ⟨rfl, rfl⟩
      · exact h.kept name n' hn'
      · exact hcarries

/-- It stays so in every move. -/
theorem Wiring.move {s : Service} (h : s.Wiring) (m : Move) : (s.move m).Wiring := by
  cases m with
  | publish n => exact h.publish n
  | dispatch stream => exact h.dispatch stream
  | stop =>
    rw [stop_eq]
    split
    · exact ⟨Router.wired_ended h.router, h.dispatcher.stop, nofun, nofun, h.kept⟩
    · exact h
  | _ => exact h.of_wires (sound_move h.dispatcher _) (wires_move s rfl)

end Service

end YangSubscriptions
