import Mathlib.Data.List.DropRight
import YangSubscriptions.Proofs.Delivery.Order

/-!
# What streams keep

A log is written by the dispatcher alone, with each notification that the feed of its stream yields. So
it holds the latest of what was taken from that feed, as many as it has room for (`log?_eq`), and nothing
that still waits.
-/

namespace YangSubscriptions

namespace ReplayLog

/-- Does the log hold the latest of these notifications, up to its capacity? -/
def Holds (log : ReplayLog) (ns : List Notification) : Prop :=
  log.notifications = ns.drop (ns.length - log.capacity)

theorem Holds.record {log : ReplayLog} {ns : List Notification} (h : log.Holds ns) (hcapacity : 0 < log.capacity)
    (n : Notification) : (log.record n).Holds (ns ++ [n]) := by
  have hlength : log.notifications.length = ns.length - (ns.length - log.capacity) := by
    rw [h, List.length_drop]
  show (if log.notifications.length = log.capacity then log.notifications.drop 1 else log.notifications) ++ [n] =
    (ns ++ [n]).drop ((ns ++ [n]).length - log.capacity)
  rw [List.length_append, List.length_singleton]
  split
  · have hshift : ns.length + 1 - log.capacity = ns.length - log.capacity + 1 := by omega
    rw [hshift, List.drop_append_of_le_length (by omega), h, List.drop_drop]
  · have hall : ns.length + 1 - log.capacity = 0 := by omega
    have hkept : ns.length - log.capacity = 0 := by omega
    rw [hall, List.drop_zero, h, hkept, List.drop_zero]

/-- Recording moves the window on. -/
theorem foldl_record {size : Nat} (hsize : 0 < size) (created : Instant) (ns ns' : List Notification) :
    ns'.foldl record ⟨size, created, ns.rtake size⟩ = ⟨size, created, (ns ++ ns').rtake size⟩ := by
  induction ns' generalizing ns with
  | nil => rw [List.append_nil, List.foldl_nil]
  | cons n ns' ih =>
    have hholds : Holds ⟨size, created, ns.rtake size⟩ ns := rfl
    have hrecord : record ⟨size, created, ns.rtake size⟩ n = ⟨size, created, (ns ++ [n]).rtake size⟩ :=
      congrArg (ReplayLog.mk size created) (hholds.record hsize n)
    rw [List.foldl_cons, hrecord, ih, List.append_assoc, List.singleton_append]

/-- What came before the log is what a full log has let go of. -/
theorem Holds.exists_forgotten {log : ReplayLog} {ns : List Notification} (h : log.Holds ns) :
    ∃ forgotten, (forgotten = [] ∨ log.notifications.length = log.capacity) ∧ ns = forgotten ++ log.notifications := by
  refine ⟨ns.take (ns.length - log.capacity), ?_, by rw [h, List.take_append_drop]⟩
  by_cases hfits : ns.length ≤ log.capacity
  · have hnothing : ns.length - log.capacity = 0 := by omega
    exact .inl (by rw [hnothing, List.take_zero])
  · refine .inr ?_
    rw [h, List.length_drop]
    omega

end ReplayLog

namespace Streams

theorem contains_of_log? {streams : Streams} {name : String} {log : ReplayLog} (h : streams.log? name = some log) :
    streams.contains name = true := by
  obtain ⟨e, he, -⟩ := Option.bind_eq_some_iff.1 h
  rw [contains, Table.contains, he]
  rfl

theorem log?_record (streams : Streams) (stream : String) (n : Notification) (name : String) :
    (streams.record stream n).log? name =
      if stream = name then (streams.log? name).map (·.record n) else streams.log? name := by
  unfold log? record
  rw [Table.get?_modify]
  split
  · cases streams.streams.get? name <;> rfl
  · rfl

end Streams

namespace Service

/-- A move records what it takes from the feed of a stream. -/
theorem log?_move (s : Service) (m : Move) (name : String) :
    (s.move m).streams.log? name =
      (s.streams.log? name).map fun log => ((s.taken name m).map (·.2)).foldl ReplayLog.record log := by
  have hsame : (s.move m).streams.streams = s.streams.streams → s.taken name m = [] →
      (s.move m).streams.log? name =
        (s.streams.log? name).map fun log => ((s.taken name m).map (·.2)).foldl ReplayLog.record log := by
    intro hstreams htaken
    rw [htaken, Streams.log?, hstreams]
    exact Option.map_id'.symm
  have hwires : ∀ {m : Move}, m.touchesFeeds = false → (s.move m).streams.streams = s.streams.streams := fun hm =>
    congrArg (fun w => w.2.1) (s.wires_move hm)
  cases m with
  | dispatch stream =>
    cases hhead : (s.router.queue stream).head? with
    | none =>
      refine hsame (congrArg (fun s => s.streams.streams) (dispatch_of_head?_none hhead)) ?_
      by_cases hname : stream = name
      · subst hname
        rw [taken_dispatch, hhead]
        rfl
      · exact taken_dispatch_of_ne s hname
    | some n =>
      have hstreams : (s.move (.dispatch stream)).streams.streams = (s.streams.record stream n).streams :=
        congrArg (fun w => w.2.1) (wires_dispatch hhead)
      rw [Streams.log?, hstreams]
      refine (Streams.log?_record ..).trans ?_
      split
      · rename_i hname
        subst hname
        rw [taken_dispatch, hhead]
        rfl
      · rename_i hname
        rw [taken_dispatch_of_ne s hname]
        exact Option.map_id'.symm
  | publish n => exact hsame rfl rfl
  | stop =>
    refine hsame ?_ rfl
    rw [stop_eq]
    split <;> rfl
  | _ => exact hsame (hwires rfl) rfl

theorem log?_moves (s : Service) (ms : List Move) (name : String) :
    (s.moves ms).streams.log? name =
      (s.streams.log? name).map fun log => ((takenAlong name s ms).map (·.2)).foldl ReplayLog.record log := by
  induction ms generalizing s with
  | nil => exact Option.map_id'.symm
  | cons m ms ih =>
    rw [moves_cons, ih, log?_move, Option.map_map, takenAlong]
    simp only [List.map_append, List.foldl_append]
    rfl

section
variable (now : Instant) (schema : Schema) (configs : List StreamConfig) (ms : List Move) (stream : String)

/-- What the feed of a stream has yielded since the start. -/
def yielded : List Notification := (takenAlong stream (start now schema configs) ms).map (·.2)

/-- The log of a stream is a window of what its feed has yielded, if it is to keep any. -/
theorem log?_eq : ((start now schema configs).moves ms).streams.log? stream =
    if 0 < Streams.replaySize configs stream then
      some ⟨Streams.replaySize configs stream, now,
        (yielded now schema configs ms stream).rtake (Streams.replaySize configs stream)⟩
    else none := by
  have hstart : (start now schema configs).streams.log? stream = (Streams.new now configs).log? stream := rfl
  rw [log?_moves, hstart, Streams.log?_new]
  split
  · rename_i hsize
    have hfold := ReplayLog.foldl_record hsize now [] (yielded now schema configs ms stream)
    rw [List.rtake_nil, List.nil_append] at hfold
    exact congrArg some hfold
  · rfl

end

/-- A log holds the latest of what the feed of its stream has yielded. -/
theorem log_eq {now : Instant} {schema : Schema} {configs : List StreamConfig} {ms : List Move} {stream : String}
    {log : ReplayLog} (h : ((start now schema configs).moves ms).streams.log? stream = some log) :
    log.Holds ((takenAlong stream (start now schema configs) ms).map (·.2)) := by
  rw [log?_eq] at h
  split at h
  · cases h
    rfl
  · cases h

end Service

end YangSubscriptions
