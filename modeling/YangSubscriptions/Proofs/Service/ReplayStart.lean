import YangSubscriptions.Proofs.Delivery.Windows
import YangSubscriptions.Proofs.Instant.Order
import YangSubscriptions.Proofs.Service.Outcomes

/-!
# Where replay starts

A session that asks for replay is told where the log of the stream starts if that is later than it asked for. What it
is told is the time of the first notification in the log. Logs are kept in the order of publishing, and publishers
choose the times, so this is the least time in the log where notifications are published in the order of their times
(`isStart_oldest`), and may be a later one where they are not: then notifications from before the revision are
replayed (`firstKept_notEarliest`). `revision_told` says exactly when it is the true start.
-/

namespace YangSubscriptions

/-- A start is told if it is later than what was asked for. -/
def revised (since start : Instant) : Option Instant := if since < start then some start else none

namespace ReplayLog

/-- Is that the least time in the log, or the time of the log if it is empty? -/
def IsStart (log : ReplayLog) (start : Instant) : Prop :=
  (log.notifications = [] ∧ start = log.created) ∨
    ((∃ n ∈ log.notifications, n.time = start) ∧ ∀ n ∈ log.notifications, start ≤ n.time)

theorem exists_earliest : ∀ (first : Notification) (ns : List Notification),
    ∃ n ∈ first :: ns, ∀ n' ∈ first :: ns, n.time ≤ n'.time
  | first, [] => ⟨first, List.mem_cons_self, by simp [Instant.le_refl]⟩
  | first, next :: ns => by
    obtain ⟨n, hn, hall⟩ := exists_earliest next ns
    rcases Instant.le_total first.time n.time with hle | hle
    · refine ⟨first, List.mem_cons_self, fun n' hn' => ?_⟩
      rcases List.mem_cons.1 hn' with rfl | hn'
      · exact Instant.le_refl _
      · exact Instant.le_trans hle (hall n' hn')
    · refine ⟨n, List.mem_cons_of_mem first hn, fun n' hn' => ?_⟩
      rcases List.mem_cons.1 hn' with rfl | hn'
      · exact hle
      · exact hall n' hn'

theorem exists_isStart (log : ReplayLog) : ∃ start, log.IsStart start := by
  obtain ⟨capacity, created, ns⟩ := log
  cases ns with
  | nil => exact ⟨created, .inl ⟨rfl, rfl⟩⟩
  | cons first ns =>
    obtain ⟨n, hn, hall⟩ := exists_earliest first ns
    exact ⟨n.time, .inr ⟨⟨n, hn, rfl⟩, hall⟩⟩

theorem IsStart.unique {log : ReplayLog} {s t : Instant} (h : log.IsStart s) (h' : log.IsStart t) : s = t := by
  rcases h with ⟨hempty, rfl⟩ | ⟨⟨n, hn, rfl⟩, hall⟩
  · rcases h' with ⟨-, rfl⟩ | ⟨⟨n, hn, -⟩, -⟩
    · rfl
    · rw [hempty] at hn
      cases hn
  · rcases h' with ⟨hempty, -⟩ | ⟨⟨n', hn', rfl⟩, hall'⟩
    · rw [hempty] at hn
      cases hn
    · exact Instant.le_antisymm (hall n' hn') (hall' n hn)

theorem IsStart.le {log : ReplayLog} {start : Instant} (h : log.IsStart start) {n : Notification}
    (hn : n ∈ log.notifications) : start ≤ n.time := by
  rcases h with ⟨hempty, -⟩ | ⟨-, hall⟩
  · rw [hempty] at hn
    cases hn
  · exact hall n hn

/-- The first notification is no earlier than the start of the log. -/
theorem IsStart.le_oldest {log : ReplayLog} {start : Instant} (h : log.IsStart start) : start ≤ log.oldest := by
  obtain ⟨capacity, created, ns⟩ := log
  cases ns with
  | nil =>
    rcases h with ⟨-, rfl⟩ | ⟨⟨n, hn, -⟩, -⟩
    · exact Instant.le_refl _
    · cases hn
  | cons first ns => exact h.le List.mem_cons_self

/-- It is the start if the notifications are in the order of their times. -/
theorem isStart_oldest {log : ReplayLog} (h : log.notifications.Pairwise fun n n' => n.time ≤ n'.time) :
    log.IsStart log.oldest := by
  obtain ⟨capacity, created, ns⟩ := log
  cases ns with
  | nil => exact .inl ⟨rfl, rfl⟩
  | cons first ns =>
    refine .inr ⟨⟨first, List.mem_cons_self, rfl⟩, fun n hn => ?_⟩
    rcases List.mem_cons.1 hn with rfl | hn
    · exact Instant.le_refl _
    · exact List.rel_of_pairwise_cons h hn

/-- What is told by the first notification is right if that one is the start, or if no later start was asked for. -/
theorem IsStart.revised_iff {log : ReplayLog} {start : Instant} (h : log.IsStart start) (since : Instant) :
    revised since log.oldest = revised since start ↔ log.oldest = start ∨ log.oldest ≤ since := by
  unfold revised
  by_cases hlater : since < log.oldest
  · have hnot : ¬ log.oldest ≤ since := fun hle => Instant.not_lt.2 hle hlater
    rw [if_pos hlater]
    constructor
    · intro htold
      split at htold
      · exact .inl (Option.some.inj htold)
      · cases htold
    · rintro (he | hle)
      · rw [← he, if_pos hlater]
      · exact absurd hle hnot
  · have hnone : ¬ since < start := fun hlt => hlater (Instant.lt_of_lt_of_le hlt h.le_oldest)
    rw [if_neg hlater, if_neg hnone]
    exact ⟨fun _ => .inr (Instant.not_lt.1 hlater), fun _ => rfl⟩

end ReplayLog

namespace Service

/-! ## Establishing -/

theorem wires_emit (s : Service) (sub : Subscription) (change : StateChange) : (s.emit sub change).wires = s.wires := by
  rw [emit_eq]
  simp only
  split
  · exact (wires_deliver _ change sub.encoding).trans rfl
  · rfl

/-- A request with a time to replay from is accepted only for a stream with a log, and the time of the first
notification in that is told if it is later. -/
theorem revision_of_checkEstablish {s : Service} {session : Session} {r : EstablishRequest} {since : Instant}
    (hsince : r.replayStartTime = some since) {request : SubscriptionRequest} {revision : Option Instant}
    (h : s.checkEstablish session r = .ok (request, revision)) :
    ∃ stream log, r.stream = some stream ∧ s.streams.log? stream = some log ∧ revision = revised since log.oldest := by
  unfold checkEstablish at h
  split at h
  · cases h
  · rename_i stream hstream
    by_cases hcontains : s.streams.contains stream = true
    · simp only [hcontains, Bool.not_true, Bool.false_eq_true, if_false] at h
      obtain ⟨resolved, -, h⟩ := exists_ok_of_bind h
      obtain ⟨told, htimes, h⟩ := exists_ok_of_bind h
      cases h
      refine ⟨stream, ?_⟩
      unfold checkTimes at htimes
      simp only [hsince] at htimes
      split at htimes
      · cases htimes
      · rename_i hsupported
        obtain ⟨log, hlog⟩ : ∃ log, s.streams.log? stream = some log := by
          rw [Streams.supportsReplay, Bool.not_eq_true', Bool.not_eq_false] at hsupported
          exact Option.isSome_iff_exists.1 hsupported
        split at htimes
        · cases htimes
        · split at htimes
          · cases htimes
          · cases htimes
            refine ⟨log, hstream, hlog, ?_⟩
            rw [Streams.oldest?, hlog]
            rfl
    · simp only [hcontains] at h
      cases h

/-- A request that is accepted leaves feeds, logs and the dispatcher's state alone. -/
theorem wires_establish {s : Service} {session : Session} {r : EstablishRequest} {reply : EstablishReply}
    (h : (s.establish session r).1 = .ok reply) :
    (s.establish session r).2.wires = s.wires ∧
      ∃ request, s.checkEstablish session r = .ok (request, reply.revision) := by
  rcases s.establish_cases session r with ⟨e, he⟩ | ⟨request, revision, hcheck, ⟨-, he⟩ | ⟨-, he⟩⟩
  · rw [he] at h
    cases h
  · rw [he] at h
    cases h
  · rw [he] at h ⊢
    cases h
    exact ⟨wires_emit .., request, hcheck⟩

/-- What a session is told that established a subscription to a stream and asked for replay from `since` on, in terms
of the log of the stream. -/
structure ReplayStart (s : Service) (session : Session) (r : EstablishRequest) (reply : EstablishReply)
    (stream : String) (since : Instant) (log : ReplayLog) : Prop where
  kept : s.streams.log? stream = some log
  /-- It is told the time of the first notification in the log, or that of the log if it is empty, if that is later. -/
  told : reply.revision = revised since log.oldest
  /-- A log has one true start, the least time in it. -/
  definite : ∃! start, log.IsStart start
  /-- It is told as it should be just if the first notification has that time, or if no earlier notification than that
  one was asked for. -/
  correct : ∀ start, log.IsStart start →
    (reply.revision = revised since start ↔ log.oldest = start ∨ log.oldest ≤ since)
  /-- The first notification has that time, whatever was let go of, if what is in the log was published in the order of
  its times. -/
  ordered : log.notifications.Pairwise (fun n n' => n.time ≤ n'.time) → log.IsStart log.oldest
  /-- Then nothing that is replayed, up to any stop-time, is earlier than what was told, as long as nothing more is
  recorded. -/
  covers : log.IsStart log.oldest → ∀ later, takenAlong stream (s.establish session r).2 later = [] →
    ∀ stop, ∀ n ∈ ((s.establish session r).2.moves later).streams.replay stream since stop,
      ∀ start ∈ reply.revision, start ≤ n.time

/-- After every order of moves, a session that asks for replay and is not refused is told where the log of the stream
starts, by the first notification in it. -/
theorem revision_told (now : Instant) (schema : Schema) (configs : List StreamConfig) (ms : List Move)
    (session : Session) (r : EstablishRequest) (since : Instant) (reply : EstablishReply)
    (hsince : r.replayStartTime = some since)
    (haccepted : (((start now schema configs).moves ms).establish session r).1 = .ok reply) :
    ∃ stream, r.stream = some stream ∧
      let size := Streams.replaySize configs stream
      0 < size ∧ ReplayStart ((start now schema configs).moves ms) session r reply stream since
        ⟨size, now, (yielded now schema configs ms stream).rtake size⟩ := by
  let s := (start now schema configs).moves ms
  obtain ⟨hwires, request, hcheck⟩ := wires_establish haccepted
  obtain ⟨stream, log, hstream, hlog, htold⟩ := revision_of_checkEstablish hsince hcheck
  have hwindow := log?_eq now schema configs ms stream
  refine ⟨stream, hstream, ?_⟩
  by_cases hsize : 0 < Streams.replaySize configs stream
  · rw [if_pos hsize, hlog, Option.some.injEq] at hwindow
    subst hwindow
    obtain ⟨earliest, hearliest⟩ := ReplayLog.exists_isStart ⟨_, now, (yielded now schema configs ms stream).rtake _⟩
    refine ⟨hsize, hlog, htold, ⟨earliest, hearliest, fun _ h => h.unique hearliest⟩, fun start hstart => ?_,
      ReplayLog.isStart_oldest, ?_⟩
    · rw [htold]
      exact hstart.revised_iff since
    · intro hstart later hnone stop n hn told htime
      have hsame : (s.establish session r).2.streams.streams = s.streams.streams :=
        congrArg (fun w => w.2.1) hwires
      have hkept : ((s.establish session r).2.moves later).streams.log? stream = s.streams.log? stream := by
        rw [log?_moves, hnone, Streams.log?, hsame]
        exact Option.map_id'
      rw [Streams.replay, hkept, hlog] at hn
      rw [htold, revised, Option.mem_def] at htime
      split at htime
      · cases htime
        exact hstart.le (List.mem_of_mem_filter hn)
      · cases htime
  · rw [if_neg hsize, hlog] at hwindow
    cases hwindow

def cleared (seconds : Int) : Notification := ⟨"alarms", ⟨seconds, 0⟩, .container (.bare "cleared") []⟩

def alarmsFromTheStart : EstablishRequest := ⟨some "alarms", none, none, none, some ⟨0, 0⟩⟩

/-- Of three alarms the log has let go of the first. -/
theorem revision_told_afterEviction :
    let s := (start ⟨0, 0⟩ .empty [⟨"alarms", none, 2⟩]).moves
      [.publish (cleared 1), .publish (cleared 2), .dispatch "alarms", .dispatch "alarms", .publish (cleared 3),
        .dispatch "alarms"]
    ∃ reply, (s.establish ⟨1, "", none⟩ alarmsFromTheStart).1 = .ok reply ∧ reply.revision = some ⟨2, 0⟩ := by
  intro s
  have haccepted : (s.establish ⟨1, "", none⟩ alarmsFromTheStart).1 = .ok ⟨firstSubscriptionId, some ⟨2, 0⟩⟩ := rfl
  obtain ⟨stream, hstream, -, hstart⟩ := revision_told ⟨0, 0⟩ .empty [⟨"alarms", none, 2⟩] _ ⟨1, "", none⟩
    alarmsFromTheStart ⟨0, 0⟩ _ rfl haccepted
  cases hstream
  exact ⟨_, haccepted, hstart.told⟩

/-- Of two alarms the later one was published first: its time is told, and the earlier one is replayed. -/
theorem firstKept_notEarliest :
    let s := (start ⟨0, 0⟩ .empty [⟨"alarms", none, 2⟩]).moves
      [.publish (cleared 2), .publish (cleared 1), .dispatch "alarms", .dispatch "alarms"]
    let t := (s.establish ⟨1, "", none⟩ alarmsFromTheStart).2
    (s.establish ⟨1, "", none⟩ alarmsFromTheStart).1 = .ok ⟨firstSubscriptionId, some ⟨2, 0⟩⟩ ∧
      (∃ log, s.streams.log? "alarms" = some log ∧ log.IsStart ⟨1, 0⟩) ∧
      t.streams.replay "alarms" ⟨0, 0⟩ none = [cleared 2, cleared 1] := by
  intro s t
  have hlog : s.streams.log? "alarms" = some ⟨2, ⟨0, 0⟩, [cleared 2, cleared 1]⟩ := rfl
  refine ⟨rfl, ⟨_, hlog, .inr ⟨⟨cleared 1, by simp, rfl⟩, ?_⟩⟩, rfl⟩
  simp only [List.mem_cons, List.not_mem_nil, or_false, forall_eq_or_imp, forall_eq]
  exact ⟨by decide, by decide⟩

end Service

end YangSubscriptions
