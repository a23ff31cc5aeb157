import YangSubscriptions.Delivery.Listener
import YangSubscriptions.Rpc.Error

/-!
# The dispatcher's listeners

Which listener is attached to which subscription, and whose replay was delivered. Once stopped, the
dispatcher refuses everything.
-/

namespace YangSubscriptions

/-- Why a call of the dispatcher has no answer (`DispatcherHandleError`). -/
inductive DispatcherFault where
  | stopped
  | silent
  deriving DecidableEq, Repr

def DispatcherFault.message : DispatcherFault → String
  | .stopped => "error sending command to dispatcher"
  | .silent => "error receiving response from dispatcher"

/-- What became of an attempt to attach a listener. -/
inductive AttachOutcome where
  | attached
  | replaced
  | occupied
  deriving DecidableEq, Repr

def AttachOutcome.name : AttachOutcome → String
  | .attached => "Attached"
  | .replaced => "Replaced"
  | .occupied => "Occupied"

/-- The listeners by number, the one of each subscription, and the subscriptions that had their replay. -/
structure Dispatcher where
  running : Bool
  listeners : Table ListenerId Listener
  attached : Table SubscriptionId ListenerId
  replayed : Table SubscriptionId Unit

namespace Dispatcher

def empty : Dispatcher := ⟨true, .empty, .empty, .empty⟩

def listener? (d : Dispatcher) (l : ListenerId) : Option Listener := d.listeners.get? l

/-- The listener that is attached to a subscription. -/
def attachedTo? (d : Dispatcher) (id : SubscriptionId) : Option Listener :=
  (d.attached.get? id).bind d.listener?

/-- Can the listener of a subscription still be given messages? -/
def hasOpenListener (d : Dispatcher) (id : SubscriptionId) : Bool := (d.attachedTo? id).any (·.isOpen)

/-- Makes a listener that is not attached yet. -/
def openListener (d : Dispatcher) (capacity : Nat) : ListenerId × Dispatcher :=
  let l := d.listeners.size
  (l, { d with listeners := d.listeners.insert l (.opened capacity) })

def modifyListener (d : Dispatcher) (l : ListenerId) (f : Listener → Listener) : Dispatcher :=
  { d with listeners := d.listeners.modify l f }

/-- Nothing more will be put into a listener. -/
def closeSender (d : Dispatcher) (l : ListenerId) : Dispatcher :=
  d.modifyListener l fun x => { x with senderOpen := false }

/-- The receiver of a listener goes away. -/
def closeReceiver (d : Dispatcher) (l : ListenerId) : Dispatcher :=
  d.modifyListener l fun x => { x with receiverOpen := false }

/-- Lets go of the listener of a subscription. -/
def release (d : Dispatcher) (id : SubscriptionId) : Dispatcher :=
  match d.attached.get? id with
  | some l => { d.closeSender l with attached := d.attached.erase id }
  | none => d

/-- Lets go of the listener of a subscription and forgets that its replay was delivered. -/
def forget (d : Dispatcher) (id : SubscriptionId) : Dispatcher :=
  { d.release id with replayed := d.replayed.erase id }

/-- Lets go of the listeners whose receivers went away (`remove_closed_listeners`). -/
def dropClosed (d : Dispatcher) : Dispatcher :=
  { d with attached := d.attached.filter fun _ l => (d.listener? l).any (·.isOpen) }

/-- Attaches a listener. An open one that is there is replaced or else keeps its place. -/
def attach (d : Dispatcher) (id : SubscriptionId) (l : ListenerId) (replace : Bool) :
    AttachOutcome × Dispatcher :=
  let isOpen := d.hasOpenListener id
  if isOpen && !replace then (.occupied, d.closeSender l)
  else
    let d := d.release id
    (if isOpen then .replaced else .attached, { d with attached := d.attached.insert id l })

/-- Puts a message into the listener of a subscription; none if it is not accepted. -/
def push? (d : Dispatcher) (id : SubscriptionId) (m : Message) : Option Dispatcher := do
  let l ← d.attached.get? id
  let x ← d.listener? l
  let x ← x.push? m
  some { d with listeners := d.listeners.insert l x }

/-- Stops: all listeners are let go. -/
def stop (d : Dispatcher) : Dispatcher :=
  { running := false
    listeners := d.listeners.map fun _ x => { x with senderOpen := false }
    attached := .empty
    replayed := .empty }

end Dispatcher

end YangSubscriptions
