import YangSubscriptions.Proofs.Table
import YangSubscriptions.Stream.Registry

/-!
# The streams of a new server

Each stream is as the configuration in effect for its name says (`get?_new`): it has a log, an empty one, if it is to
keep notifications (`log?_new`).
-/

namespace YangSubscriptions

namespace Streams

/-- The configuration in effect for a name: of several the last one, and for the default stream its own if there is
none. -/
def config? (configs : List StreamConfig) (name : String) : Option StreamConfig :=
  (configs.reverse.find? (·.name = name)).or (if name = netconfStream then some defaultConfig else none)

/-- How many notifications are to be kept on a stream. -/
def replaySize (configs : List StreamConfig) (name : String) : Nat := ((config? configs name).map (·.replaySize)).getD 0

theorem get?_foldl_insert (now : Instant) (name : String) (configs : List StreamConfig) (t : Table String EventStream) :
    (configs.foldl (fun t c => t.insert c.name (.ofConfig now c)) t).get? name =
      ((configs.reverse.find? (·.name = name)).map (.ofConfig now)).or (t.get? name) := by
  induction configs generalizing t with
  | nil => rfl
  | cons c configs ih =>
    rw [List.foldl_cons, ih, Table.get?_insert, List.reverse_cons, List.find?_append]
    cases configs.reverse.find? (·.name = name) with
    | some c' => rfl
    | none =>
      by_cases hname : c.name = name
      · simp [hname]
      · simp [hname]

theorem get?_new (now : Instant) (configs : List StreamConfig) (name : String) :
    (new now configs).streams.get? name = (config? configs name).map (.ofConfig now) := by
  let t : Table String EventStream := configs.foldl (fun t c => t.insert c.name (.ofConfig now c)) .empty
  have ht : ∀ name, t.get? name = (configs.reverse.find? (·.name = name)).map (.ofConfig now) := fun name =>
    (get?_foldl_insert now name configs .empty).trans Option.or_none
  show (if t.contains netconfStream then t else t.insert netconfStream (.ofConfig now defaultConfig)).get? name = _
  unfold config?
  by_cases hname : name = netconfStream
  · subst hname
    have hcontains : t.contains netconfStream = (configs.reverse.find? (·.name = netconfStream)).isSome := by
      rw [Table.contains, ht, Option.isSome_map]
    cases hfound : configs.reverse.find? (·.name = netconfStream) with
    | some c =>
      rw [hfound] at hcontains
      simp [hcontains, ht, hfound]
    | none =>
      rw [hfound] at hcontains
      simp [hcontains, Table.get?_insert]
  · have hother : (t.insert netconfStream (.ofConfig now defaultConfig)).get? name = t.get? name := by
      rw [Table.get?_insert, if_neg (Ne.symm hname)]
    have hsame : (if t.contains netconfStream then t else t.insert netconfStream (.ofConfig now defaultConfig)).get? name =
        t.get? name := by
      split
      · rfl
      · exact hother
    rw [hsame, ht, if_neg hname, Option.or_none]

/-- A new stream that is to keep notifications has kept none. -/
theorem log?_new (now : Instant) (configs : List StreamConfig) (name : String) :
    (new now configs).log? name =
      if 0 < replaySize configs name then some ⟨replaySize configs name, now, []⟩ else none := by
  rw [log?, get?_new, replaySize]
  cases config? configs name with
  | none => rfl
  | some c => rfl

end Streams

end YangSubscriptions
