import YangSubscriptions.Proofs.Delivery.Logs
import Mathlib.Data.Fintype.Defs

/-!
# Logs are sliding windows

A stream that is configured to keep notifications keeps the latest of those that its feed has yielded, in their
order, as many as it is configured to; any other stream keeps none. Replay gives what lies in that window and between
the times it is asked for. `sliding_windows` states this for every set of streams and every interleaving of the feeds
with whatever else the dispatcher is told; what other streams keep or are asked for does not come into it.
-/

namespace YangSubscriptions

namespace Service

variable (now : Instant) (schema : Schema) (configs : List StreamConfig) (ms : List Move) (stream : String)

/-- What a stream keeps and replays after moves since the start, of what its feed has yielded. -/
structure SlidingWindow : Prop where
  /-- It keeps the latest that were yielded, as many as it is to keep, and has no log if it is to keep none. -/
  log : let size := Streams.replaySize configs stream
    ((start now schema configs).moves ms).streams.log? stream =
      if 0 < size then some ⟨size, now, (yielded now schema configs ms stream).rtake size⟩ else none
  /-- It is full as soon as that many were yielded. -/
  length : (kept ((start now schema configs).moves ms).streams.streams stream).length =
    min (yielded now schema configs ms stream).length (Streams.replaySize configs stream)
  /-- Replay gives what was kept from one time to another, in its order. -/
  replay : ∀ since stop, ((start now schema configs).moves ms).streams.replay stream since stop =
    ((yielded now schema configs ms stream).rtake (Streams.replaySize configs stream)).filter fun n =>
      since ≤ n.time ∧ ∀ t ∈ stop, n.time ≤ t
  /-- What was yielded was published for the stream, in this order and each no more often than it was published. -/
  published : (yielded now schema configs ms stream).Sublist (publishedOn stream ms)
  /-- While the dispatcher runs it is all of that but for what still waits. -/
  lossless : let s := (start now schema configs).moves ms
    s.dispatcher.running = true → s.streams.contains stream = true →
      yielded now schema configs ms stream ++ s.router.queue stream = publishedOn stream ms

/-- Every stream keeps a sliding window of what its feed has yielded, and replays from that. -/
theorem sliding_windows : SlidingWindow now schema configs ms stream := by
  let s := (start now schema configs).moves ms
  have hlog := log?_eq now schema configs ms stream
  have hempty : ∀ ns : List Notification, ¬ 0 < Streams.replaySize configs stream →
      ns.rtake (Streams.replaySize configs stream) = [] := by
    intro ns hsize
    rw [Nat.eq_zero_of_not_pos hsize, List.rtake_zero]
  have hkept : kept s.streams.streams stream =
      (yielded now schema configs ms stream).rtake (Streams.replaySize configs stream) := by
    show ((s.streams.log? stream).map (·.notifications)).getD [] = _
    rw [hlog]
    split
    · rfl
    · rename_i hsize
      exact (hempty _ hsize).symm
  constructor
  · exact hlog
  · rw [hkept, List.rtake, List.length_drop]
    omega
  · intro since stop
    have hfilter : s.streams.replay stream since stop =
        (kept s.streams.streams stream).filter fun n => since.le n.time && stop.all n.time.le := by
      show ((s.streams.log? stream).map (·.between since stop)).getD [] =
        (((s.streams.log? stream).map (·.notifications)).getD []).filter _
      cases s.streams.log? stream <;> rfl
    rw [hfilter, hkept]
    refine List.filter_congr fun n _ => ?_
    cases stop <;> simp [LE.le]
  · have hsublist := yielded_sublist (wiring_start now schema configs) stream ms
    rw [queue_start, List.nil_append] at hsublist
    exact (List.sublist_append_left ..).trans hsublist
  · intro s hrunning hstream
    rw [contains_moves] at hstream
    have hall := yielded_eq (wiring_start now schema configs) hstream hrunning
    rwa [queue_start, List.nil_append] at hall

end Service

end YangSubscriptions
