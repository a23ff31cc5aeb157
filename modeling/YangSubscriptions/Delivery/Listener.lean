import YangSubscriptions.Notification.Event
import YangSubscriptions.Table

/-!
# Listeners

The queue between a subscription and its receiver. A listener keeps everything it ever accepted and
how much of that was taken; what lies between is pending. Either end may be closed, and the other
end notices.
-/

namespace YangSubscriptions

/-- Listeners are numbered in the order they are opened. -/
abbrev ListenerId := Nat

/-- A queue of messages with its two ends. -/
structure Listener where
  capacity : Nat
  accepted : List Message
  taken : Nat
  senderOpen : Bool
  receiverOpen : Bool
  deriving Repr, Inhabited

namespace Listener

/-- A listener that nothing was given to yet. -/
def opened (capacity : Nat) : Listener := ⟨capacity, [], 0, true, true⟩

/-- What the receiver has yet to take. -/
def pending (l : Listener) : List Message := l.accepted.drop l.taken

/-- Is there no room for another message? -/
def isFull (l : Listener) : Bool := l.capacity ≤ l.pending.length

/-- Can it still be given messages? -/
def isOpen (l : Listener) : Bool := l.senderOpen && l.receiverOpen

/-- Accepts a message unless it is full or closed. -/
def push? (l : Listener) (m : Message) : Option Listener :=
  if l.isFull || !l.isOpen then none else some { l with accepted := l.accepted ++ [m] }

/-- Takes at most `max` pending messages. -/
def take (l : Listener) (max : Nat) : List Message × Listener :=
  let ms := l.pending.take max
  (ms, { l with taken := l.taken + ms.length })

/-- Taking splits what is pending. -/
theorem take_append_pending (l : Listener) (max : Nat) :
    (l.take max).1 ++ (l.take max).2.pending = l.pending := by
  have h : (l.take max).2.pending = l.pending.drop (l.pending.take max).length := by
    simp only [take, pending, List.drop_drop]
  rw [h, List.length_take]
  show l.pending.take max ++ _ = _
  rcases Nat.le_total max l.pending.length with hm | hm
  · rw [Nat.min_eq_left hm, List.take_append_drop]
  · rw [Nat.min_eq_right hm, List.take_of_length_le hm, List.drop_length, List.append_nil]

end Listener

end YangSubscriptions
