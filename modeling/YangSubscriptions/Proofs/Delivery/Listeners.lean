import YangSubscriptions.Proofs.Table
import YangSubscriptions.Delivery.Dispatcher

/-!
# Laws of the dispatcher

Listeners are numbered without gaps and each is attached to at most one subscription (`Sound`). A
listener only ever accepts more (`accepted`), and once it is let go it is never attached again, since
attaching always takes a new one (`Quiet`).
-/

namespace YangSubscriptions

namespace Listener

/-- Will it accept a message? -/
def takes (x : Listener) : Bool := x.isOpen && !x.isFull

theorem push?_eq (x : Listener) (m : Message) :
    x.push? m = if x.takes then some { x with accepted := x.accepted ++ [m] } else none := by
  unfold push? takes
  cases x.isFull <;> cases x.isOpen <;> rfl

end Listener

namespace Dispatcher

/-- All that a listener has accepted. -/
def accepted (d : Dispatcher) (l : ListenerId) : List Message := ((d.listener? l).map (·.accepted)).getD []

/-- Will the listener accept a message? -/
def takes (d : Dispatcher) (l : ListenerId) : Bool := (d.listener? l).any (·.takes)

theorem takes_of_not_open {d : Dispatcher} {l : ListenerId} (h : (d.listener? l).any (·.isOpen) = false) :
    d.takes l = false := by
  unfold takes
  cases hx : d.listener? l with
  | none => rfl
  | some x =>
    rw [hx] at h
    simp only [Option.any_some] at h ⊢
    rw [Listener.takes, h, Bool.false_and]

structure Sound (d : Dispatcher) : Prop where
  numbered : ∀ l, (d.listener? l).isSome = true ↔ l < d.listeners.size
  exclusive : ∀ id id' l, d.attached.get? id = some l → d.attached.get? id' = some l → id = id'
  known : ∀ id l, d.attached.get? id = some l → l < d.listeners.size
  idle : d.running = false → ∀ id, d.attached.get? id = none

/-- Listeners that were there are attached only where they were. -/
structure Keeps (d d' : Dispatcher) : Prop where
  size_le : d.listeners.size ≤ d'.listeners.size
  attached : ∀ id, ∀ l < d.listeners.size, d'.attached.get? id = some l → d.attached.get? id = some l

/-- And they accept nothing. -/
structure Quiet (d d' : Dispatcher) : Prop extends Keeps d d' where
  accepted : ∀ l < d.listeners.size, d'.accepted l = d.accepted l

theorem Keeps.refl (d : Dispatcher) : d.Keeps d := ⟨Nat.le_refl _, fun _ _ _ h => h⟩

theorem Keeps.trans {d d' d'' : Dispatcher} (h : d.Keeps d') (h' : d'.Keeps d'') : d.Keeps d'' where
  size_le := Nat.le_trans h.size_le h'.size_le
  attached id l hl hid := h.attached id l hl (h'.attached id l (Nat.lt_of_lt_of_le hl h.size_le) hid)

theorem Quiet.refl (d : Dispatcher) : d.Quiet d := ⟨.refl d, fun _ _ => rfl⟩

theorem Quiet.trans {d d' d'' : Dispatcher} (h : d.Quiet d') (h' : d'.Quiet d'') : d.Quiet d'' where
  toKeeps := h.toKeeps.trans h'.toKeeps
  accepted l hl := (h'.accepted l (Nat.lt_of_lt_of_le hl h.size_le)).trans (h.accepted l hl)

theorem sound_empty : Sound empty where
  numbered l := ⟨nofun, nofun⟩
  exclusive _ _ _ h := by cases h
  known _ _ h := by cases h
  idle h := by cases h

/-! ## Changing a listener -/

/-- A change of one listener leaves the others alone. -/
theorem listener?_modifyListener (d : Dispatcher) (l : ListenerId) (f : Listener → Listener) (l' : ListenerId) :
    (d.modifyListener l f).listener? l' = if l = l' then (d.listener? l').map f else d.listener? l' :=
  Table.get?_modify ..

theorem size_modifyListener (d : Dispatcher) (l : ListenerId) (f : Listener → Listener) :
    (d.modifyListener l f).listeners.size = d.listeners.size := Table.size_modify ..

theorem Sound.modifyListener {d : Dispatcher} (h : d.Sound) (l : ListenerId) (f : Listener → Listener) :
    (d.modifyListener l f).Sound where
  numbered l' := by
    rw [size_modifyListener, ← h.numbered, listener?_modifyListener]
    split
    · rw [Option.isSome_map]
    · rfl
  exclusive := h.exclusive
  known id l' hid := by
    rw [size_modifyListener]
    exact h.known id l' hid
  idle := h.idle

/-- What was accepted stays, as long as the change keeps it. -/
theorem accepted_modifyListener (d : Dispatcher) (l : ListenerId) {f : Listener → Listener}
    (hf : ∀ x, (f x).accepted = x.accepted) (l' : ListenerId) : (d.modifyListener l f).accepted l' = d.accepted l' := by
  unfold accepted
  rw [listener?_modifyListener]
  split
  · cases d.listener? l' with
    | none => rfl
    | some x => exact hf x
  · rfl

theorem quiet_modifyListener (d : Dispatcher) (l : ListenerId) {f : Listener → Listener}
    (hf : ∀ x, (f x).accepted = x.accepted) : d.Quiet (d.modifyListener l f) where
  size_le := Nat.le_of_eq (size_modifyListener ..).symm
  accepted l' _ := accepted_modifyListener d l hf l'
  attached _ _ _ hid := hid

theorem Sound.closeSender {d : Dispatcher} (h : d.Sound) (l : ListenerId) : (d.closeSender l).Sound :=
  h.modifyListener l _

theorem quiet_closeSender (d : Dispatcher) (l : ListenerId) : d.Quiet (d.closeSender l) :=
  quiet_modifyListener d l fun _ => rfl

/-! ## Letting go -/

/-- After a release the subscription has no listener, and the others have theirs. -/
theorem get?_attached_release (d : Dispatcher) (id id' : SubscriptionId) :
    (d.release id).attached.get? id' = if id = id' then none else d.attached.get? id' := by
  unfold release
  cases h : d.attached.get? id with
  | none =>
    simp only
    split
    · rename_i he
      rw [← he, h]
    · rfl
  | some l => exact Table.get?_erase ..

/-- A dispatcher with fewer attachments. -/
theorem Sound.of_attached {d d' : Dispatcher} (h : d.Sound) (hlisteners : d'.listeners = d.listeners)
    (hattached : ∀ id l, d'.attached.get? id = some l → d.attached.get? id = some l)
    (hrunning : d'.running = d.running) : d'.Sound where
  numbered l := by
    unfold listener?
    rw [hlisteners]
    exact h.numbered l
  exclusive id id' l hid hid' := h.exclusive id id' l (hattached id l hid) (hattached id' l hid')
  known id l hid := by
    rw [hlisteners]
    exact h.known id l (hattached id l hid)
  idle hr id := by
    cases hid : d'.attached.get? id with
    | none => rfl
    | some l =>
      have := h.idle (hrunning ▸ hr) id
      rw [hattached id l hid] at this
      cases this

/-- A dispatcher with the same listeners and fewer attachments. -/
theorem quiet_of_attached {d d' : Dispatcher} (hlisteners : d'.listeners = d.listeners)
    (hattached : ∀ id l, d'.attached.get? id = some l → d.attached.get? id = some l) : d.Quiet d' where
  size_le := Nat.le_of_eq (congrArg Table.size hlisteners.symm)
  accepted l _ := by
    unfold accepted listener?
    rw [hlisteners]
  attached id l _ hid := hattached id l hid

/-- Either there was nothing to let go of, or one listener's sender is closed and its place is free. -/
theorem release_cases (d : Dispatcher) (id : SubscriptionId) :
    d.release id = d ∨ ∃ l, d.release id = { d.closeSender l with attached := d.attached.erase id } := by
  unfold release
  split
  · exact .inr ⟨_, rfl⟩
  · exact .inl rfl

theorem listener?_release_of_ne {d : Dispatcher} {id : SubscriptionId} {l : ListenerId}
    (h : d.attached.get? id ≠ some l) : (d.release id).listener? l = d.listener? l := by
  unfold release
  cases hid : d.attached.get? id with
  | none => rfl
  | some l' =>
    have hne : l' ≠ l := fun he => h (he ▸ hid)
    show (d.closeSender l').listener? l = _
    rw [closeSender, listener?_modifyListener, if_neg hne]

theorem attached_of_erase {d : Dispatcher} {id id' : SubscriptionId} {l : ListenerId}
    (h : (d.attached.erase id).get? id' = some l) : d.attached.get? id' = some l := by
  rw [Table.get?_erase] at h
  split at h
  · cases h
  · exact h

theorem Sound.release {d : Dispatcher} (h : d.Sound) (id : SubscriptionId) : (d.release id).Sound := by
  rcases release_cases d id with he | ⟨l, he⟩
  · rwa [he]
  · rw [he]
    exact (h.closeSender l).of_attached rfl (fun _ _ => attached_of_erase) rfl

theorem quiet_release (d : Dispatcher) (id : SubscriptionId) : d.Quiet (d.release id) := by
  rcases release_cases d id with he | ⟨l, he⟩
  · rw [he]
    exact .refl d
  · rw [he]
    exact (quiet_closeSender d l).trans (quiet_of_attached rfl fun _ _ => attached_of_erase)

theorem Sound.forget {d : Dispatcher} (h : d.Sound) (id : SubscriptionId) : (d.forget id).Sound :=
  (h.release id).of_attached rfl (fun _ _ hid => hid) rfl

theorem quiet_forget (d : Dispatcher) (id : SubscriptionId) : d.Quiet (d.forget id) :=
  (quiet_release d id).trans (quiet_of_attached rfl fun _ _ hid => hid)

/-- Dropping closed listeners detaches just those that are not open any more. -/
theorem get?_attached_dropClosed (d : Dispatcher) (id : SubscriptionId) (l : ListenerId) :
    d.dropClosed.attached.get? id = some l ↔ d.attached.get? id = some l ∧ (d.listener? l).any (·.isOpen) = true := by
  unfold dropClosed
  rw [Table.get?_filter, Option.filter_eq_some_iff]

theorem Sound.dropClosed {d : Dispatcher} (h : d.Sound) : d.dropClosed.Sound :=
  h.of_attached rfl (fun id l hid => ((get?_attached_dropClosed d id l).1 hid).1) rfl

/-! ## Attaching -/

/-- The number that is given next is no listener's yet. -/
theorem Sound.listener?_size {d : Dispatcher} (h : d.Sound) : d.listener? d.listeners.size = none := by
  have hnone := mt (h.numbered d.listeners.size).1 (Nat.lt_irrefl _)
  rwa [Bool.not_eq_true, Option.isSome_eq_false_iff, Option.isNone_iff_eq_none] at hnone

theorem listener?_openListener (d : Dispatcher) (capacity : Nat) (l : ListenerId) :
    (d.openListener capacity).2.listener? l = if d.listeners.size = l then some (.opened capacity) else d.listener? l :=
  Table.get?_insert ..

theorem Sound.size_openListener {d : Dispatcher} (h : d.Sound) (capacity : Nat) :
    (d.openListener capacity).2.listeners.size = d.listeners.size + 1 :=
  Table.size_insert_of_get?_none _ h.listener?_size

theorem Sound.openListener {d : Dispatcher} (h : d.Sound) (capacity : Nat) : (d.openListener capacity).2.Sound where
  numbered l := by
    rw [h.size_openListener, listener?_openListener]
    split
    · rename_i hl
      simp only [Option.isSome_some, true_iff]
      exact hl ▸ Nat.lt_succ_self _
    · rename_i hl
      rw [h.numbered]
      exact ⟨Nat.lt_succ_of_lt, fun hlt => Nat.lt_of_le_of_ne (Nat.le_of_lt_succ hlt) (Ne.symm hl)⟩
  exclusive := h.exclusive
  known id l hid := by
    rw [h.size_openListener]
    exact Nat.lt_succ_of_lt (h.known id l hid)
  idle := h.idle

theorem Sound.quiet_openListener {d : Dispatcher} (h : d.Sound) (capacity : Nat) :
    d.Quiet (d.openListener capacity).2 where
  size_le := by
    rw [h.size_openListener]
    exact Nat.le_succ _
  accepted l hl := by
    unfold accepted
    rw [listener?_openListener, if_neg (Nat.ne_of_gt hl)]
  attached _ _ _ hid := hid

@[simp] theorem running_release (d : Dispatcher) (id : SubscriptionId) : (d.release id).running = d.running := by
  rcases release_cases d id with he | ⟨l, he⟩ <;> rw [he]
  rfl

@[simp] theorem running_forget (d : Dispatcher) (id : SubscriptionId) : (d.forget id).running = d.running :=
  running_release d id

/-- An attempt is turned away, or the new listener takes the place of whatever was there. -/
theorem attach_cases (d : Dispatcher) (id : SubscriptionId) (l : ListenerId) (replace : Bool) :
    d.attach id l replace = (.occupied, d.closeSender l) ∨
      ∃ outcome, outcome ≠ .occupied ∧
        d.attach id l replace = (outcome, { d.release id with attached := (d.release id).attached.insert id l }) := by
  unfold attach
  by_cases hkeeps : (d.hasOpenListener id && !replace) = true
  · exact .inl (if_pos hkeeps)
  · refine .inr ⟨if d.hasOpenListener id then .replaced else .attached, ?_, if_neg hkeeps⟩
    split <;> nofun

/-- Attaching a listener that is attached nowhere yet. -/
theorem Sound.attach {d : Dispatcher} (h : d.Sound) (id : SubscriptionId) {l : ListenerId}
    (hl : l < d.listeners.size) (hnew : ∀ id', d.attached.get? id' ≠ some l) (hrunning : d.running = true)
    (replace : Bool) : (d.attach id l replace).2.Sound := by
  have hreleased := h.release id
  have hsize : (d.release id).listeners.size = d.listeners.size := by
    rcases release_cases d id with he | ⟨l', he⟩ <;> rw [he]
    exact size_modifyListener ..
  have hnew' : ∀ id', (d.release id).attached.get? id' ≠ some l := by
    intro id' hid
    rw [get?_attached_release] at hid
    split at hid
    · cases hid
    · exact hnew id' hid
  rcases attach_cases d id l replace with he | ⟨_, -, he⟩
  · rw [he]
    exact h.closeSender l
  · rw [he]
    have hcases : ∀ id' l', ((d.release id).attached.insert id l).get? id' = some l' →
        (id = id' ∧ l' = l) ∨ (d.release id).attached.get? id' = some l' := by
      intro id' l' hid
      rw [Table.get?_insert] at hid
      split at hid
      · rename_i he
        exact .inl ⟨he, (Option.some.inj hid).symm⟩
      · exact .inr hid
    refine ⟨hreleased.numbered, fun id₁ id₂ l' h₁ h₂ => ?_, fun id' l' hid => ?_, fun hr => ?_⟩
    · rcases hcases id₁ l' h₁ with ⟨rfl, rfl⟩ | h₁ <;> rcases hcases id₂ l' h₂ with ⟨rfl, hl'⟩ | h₂
      · rfl
      · exact absurd h₂ (hnew' id₂)
      · rw [hl'] at h₁
        exact absurd h₁ (hnew' id₁)
      · exact hreleased.exclusive id₁ id₂ l' h₁ h₂
    · rcases hcases id' l' hid with ⟨-, rfl⟩ | hid
      · exact hsize ▸ hl
      · exact hreleased.known id' l' hid
    · have hr' : (d.release id).running = false := hr
      rw [running_release, hrunning] at hr'
      cases hr'

/-- The listener that is attached is a new one, so those that were there stay quiet. -/
theorem quiet_attach {d d' : Dispatcher} (h : d.Quiet d') (id : SubscriptionId) {l : ListenerId}
    (hl : d.listeners.size ≤ l) (replace : Bool) : d.Quiet (d'.attach id l replace).2 := by
  rcases attach_cases d' id l replace with he | ⟨_, -, he⟩
  · rw [he]
    exact h.trans (quiet_closeSender d' l)
  · rw [he]
    have hreleased := h.trans (quiet_release d' id)
    refine ⟨⟨hreleased.size_le, fun id' l' hl' hid => ?_⟩, hreleased.accepted⟩
    have hid : ((d'.release id).attached.insert id l).get? id' = some l' := hid
    rw [Table.get?_insert] at hid
    split at hid
    · obtain rfl : l = l' := Option.some.inj hid
      exact absurd hl' (Nat.not_lt.2 hl)
    · exact hreleased.attached id' l' hl' hid

/-- Opening a listener puts nothing into any. -/
theorem Sound.accepted_openListener {d : Dispatcher} (h : d.Sound) (capacity : Nat) (l : ListenerId) :
    (d.openListener capacity).2.accepted l = d.accepted l := by
  unfold accepted
  rw [listener?_openListener]
  split
  · rename_i hl
    rw [← hl, h.listener?_size]
    rfl
  · rfl

theorem accepted_closeSender (d : Dispatcher) (l l' : ListenerId) : (d.closeSender l).accepted l' = d.accepted l' :=
  accepted_modifyListener d l (f := fun x => { x with senderOpen := false }) (fun _ => rfl) l'

theorem accepted_release (d : Dispatcher) (id : SubscriptionId) (l : ListenerId) :
    (d.release id).accepted l = d.accepted l := by
  rcases release_cases d id with he | ⟨l', he⟩
  · rw [he]
  · rw [he]
    exact accepted_closeSender d l' l

/-! ## New listeners -/

/-- A new listener that is turned away. -/
def turnAway (d : Dispatcher) (capacity : Nat) : Dispatcher :=
  (d.openListener capacity).2.closeSender d.listeners.size

/-- A new listener that is attached to a subscription, in place of the one that was. -/
def seat (d : Dispatcher) (id : SubscriptionId) (capacity : Nat) : Dispatcher :=
  let released := (d.openListener capacity).2.release id
  { released with attached := released.attached.insert id d.listeners.size }

/-- Seating is opening a listener and attaching it at any price. -/
theorem seat_eq_attach (d : Dispatcher) (id : SubscriptionId) (capacity : Nat) :
    d.seat id capacity = ((d.openListener capacity).2.attach id d.listeners.size true).2 := by
  simp [attach, seat]

@[simp] theorem running_seat (d : Dispatcher) (id : SubscriptionId) (capacity : Nat) :
    (d.seat id capacity).running = d.running := running_release ..

theorem get?_attached_seat (d : Dispatcher) (id : SubscriptionId) (capacity : Nat) (id' : SubscriptionId) :
    (d.seat id capacity).attached.get? id' = if id = id' then some d.listeners.size else d.attached.get? id' := by
  have hreleased : ((d.openListener capacity).2.release id).attached.get? id' =
      if id = id' then none else d.attached.get? id' := get?_attached_release ..
  rw [seat, Table.get?_insert, hreleased]
  split <;> rfl

namespace Sound

variable {d : Dispatcher} (h : d.Sound) (id : SubscriptionId) (capacity : Nat)
include h

theorem turnAway : (d.turnAway capacity).Sound := (h.openListener capacity).closeSender _

theorem quiet_turnAway : d.Quiet (d.turnAway capacity) := (h.quiet_openListener capacity).trans (quiet_closeSender ..)

theorem accepted_turnAway (l : ListenerId) : (d.turnAway capacity).accepted l = d.accepted l :=
  (accepted_closeSender ..).trans (h.accepted_openListener capacity l)

theorem seat (hrunning : d.running = true) : (d.seat id capacity).Sound := by
  have hl : d.listeners.size < (d.openListener capacity).2.listeners.size := by
    rw [h.size_openListener]
    exact Nat.lt_succ_self _
  have hnew : ∀ id', (d.openListener capacity).2.attached.get? id' ≠ some d.listeners.size := fun id' hid =>
    Nat.lt_irrefl _ (h.known id' _ hid)
  rw [seat_eq_attach]
  exact (h.openListener capacity).attach id hl hnew hrunning true

theorem quiet_seat : d.Quiet (d.seat id capacity) := by
  rw [seat_eq_attach]
  exact quiet_attach (h.quiet_openListener capacity) id (Nat.le_refl _) true

theorem accepted_seat (l : ListenerId) : (d.seat id capacity).accepted l = d.accepted l :=
  (accepted_release (d.openListener capacity).2 id l).trans (h.accepted_openListener capacity l)

/-- Whoever was attached before, the new listener is empty. -/
theorem listener?_seat : (d.seat id capacity).listener? d.listeners.size = some (.opened capacity) := by
  have hopened : (d.openListener capacity).2.listener? d.listeners.size = some (.opened capacity) := by
    rw [listener?_openListener, if_pos rfl]
  rw [← hopened]
  show ((d.openListener capacity).2.release id).listener? _ = _
  refine listener?_release_of_ne fun hid => ?_
  exact Nat.lt_irrefl _ (h.known id _ hid)

/-- A new listener is in nobody's way. -/
theorem hasOpenListener_openListener : (d.openListener capacity).2.hasOpenListener id = d.hasOpenListener id := by
  unfold hasOpenListener attachedTo?
  show (Option.bind (d.attached.get? id) _).any _ = _
  cases hid : d.attached.get? id with
  | none => rfl
  | some l =>
    have hne : d.listeners.size ≠ l := Nat.ne_of_gt (h.known id l hid)
    rw [Option.bind_some, Option.bind_some, listener?_openListener, if_neg hne]

end Sound

/-! ## Accepting a message -/

/-- A listener that accepted one more message. -/
def put (d : Dispatcher) (l : ListenerId) (m : Message) : Dispatcher :=
  d.modifyListener l fun x => { x with accepted := x.accepted ++ [m] }

/-- A message is pushed just where the attached listener takes it. -/
theorem push?_eq (d : Dispatcher) (id : SubscriptionId) (m : Message) :
    d.push? id m = ((d.attached.get? id).filter d.takes).map fun l => d.put l m := by
  unfold push?
  cases d.attached.get? id with
  | none => rfl
  | some l =>
    cases hx : d.listener? l with
    | none => simp [takes, hx, Option.filter]
    | some x =>
      cases htakes : x.takes with
      | false => simp [takes, hx, htakes, Listener.push?_eq, Option.filter]
      | true =>
        have hput : d.put l m =
            { d with listeners := d.listeners.insert l { x with accepted := x.accepted ++ [m] } } := by
          unfold put modifyListener
          rw [Table.modify_eq_insert _ hx]
        simp [takes, hx, htakes, Listener.push?_eq, Option.filter, hput]

theorem accepted_put {d : Dispatcher} {l : ListenerId} (h : d.takes l = true) (m : Message) :
    (d.put l m).accepted l = d.accepted l ++ [m] := by
  unfold accepted put
  rw [listener?_modifyListener, if_pos rfl]
  cases hx : d.listener? l with
  | none => simp [takes, hx] at h
  | some x => rfl

theorem listener?_put_of_ne (d : Dispatcher) {l l' : ListenerId} (h : l ≠ l') (m : Message) :
    (d.put l m).listener? l' = d.listener? l' := by
  unfold put
  rw [listener?_modifyListener, if_neg h]

theorem Sound.put {d : Dispatcher} (h : d.Sound) (l : ListenerId) (m : Message) : (d.put l m).Sound :=
  h.modifyListener l _

/-- The dispatcher once a subscription's listener was given a message, accepted or not. -/
def give (d : Dispatcher) (id : SubscriptionId) (m : Message) : Dispatcher := (d.push? id m).getD d

/-- Giving a message changes one listener at most. -/
theorem give_cases (d : Dispatcher) (id : SubscriptionId) (m : Message) :
    d.give id m = d ∨ ∃ l, d.attached.get? id = some l ∧ d.give id m = d.put l m := by
  unfold give
  rw [push?_eq]
  cases hid : d.attached.get? id with
  | none => exact .inl rfl
  | some l =>
    cases htakes : d.takes l with
    | false => exact .inl (by simp [Option.filter, htakes])
    | true => exact .inr ⟨l, rfl, by simp [Option.filter, htakes]⟩

theorem Sound.give {d : Dispatcher} (h : d.Sound) (id : SubscriptionId) (m : Message) : (d.give id m).Sound := by
  rcases d.give_cases id m with he | ⟨l, -, he⟩
  · rwa [he]
  · rw [he]
    exact h.put l m

@[simp] theorem attached_give (d : Dispatcher) (id : SubscriptionId) (m : Message) :
    (d.give id m).attached = d.attached := by
  rcases d.give_cases id m with he | ⟨l, -, he⟩ <;> rw [he]
  rfl

@[simp] theorem size_give (d : Dispatcher) (id : SubscriptionId) (m : Message) :
    (d.give id m).listeners.size = d.listeners.size := by
  rcases d.give_cases id m with he | ⟨l, -, he⟩ <;> rw [he]
  exact size_modifyListener ..

/-- A listener that takes a message has it last. -/
theorem accepted_give {d : Dispatcher} {id : SubscriptionId} {l : ListenerId} (h : d.attached.get? id = some l)
    (m : Message) : (d.give id m).accepted l = d.accepted l ++ if d.takes l then [m] else [] := by
  unfold give
  rw [push?_eq, h]
  cases htakes : d.takes l with
  | false => simp [Option.filter, htakes]
  | true => simp [Option.filter, htakes, accepted_put htakes]

theorem listener?_give_of_ne {d : Dispatcher} {id : SubscriptionId} {l : ListenerId}
    (h : d.attached.get? id ≠ some l) (m : Message) : (d.give id m).listener? l = d.listener? l := by
  rcases d.give_cases id m with he | ⟨l', hl', he⟩
  · rw [he]
  · rw [he]
    refine listener?_put_of_ne d (fun e => h ?_) m
    rw [hl', e]

theorem give_of_unattached {d : Dispatcher} {id : SubscriptionId} (h : d.attached.get? id = none) (m : Message) :
    d.give id m = d := by
  unfold give
  rw [push?_eq, h]
  rfl

/-- The dispatcher once a subscription's listener was given a message, if there is one. -/
def tell (d : Dispatcher) (id : SubscriptionId) (message? : Option Message) : Dispatcher :=
  (message?.map (d.give id)).getD d

@[simp] theorem attached_tell (d : Dispatcher) (id : SubscriptionId) (message? : Option Message) :
    (d.tell id message?).attached = d.attached := by
  cases message? with
  | none => rfl
  | some m => exact attached_give d id m

@[simp] theorem size_tell (d : Dispatcher) (id : SubscriptionId) (message? : Option Message) :
    (d.tell id message?).listeners.size = d.listeners.size := by
  cases message? with
  | none => rfl
  | some m => exact size_give d id m

/-- A listener accepts what its subscription is told, if it has room. -/
theorem accepted_tell (d : Dispatcher) (id : SubscriptionId) (message? : Option Message) (l : ListenerId) :
    (d.tell id message?).accepted l =
      d.accepted l ++ if d.attached.get? id = some l ∧ d.takes l = true then message?.toList else [] := by
  cases message? with
  | none => simp [tell]
  | some m =>
    show (d.give id m).accepted l = _
    by_cases hid : d.attached.get? id = some l
    · rw [accepted_give hid]
      simp [hid]
    · unfold accepted
      rw [listener?_give_of_ne hid]
      simp [hid]

/-- Quiet, with a new listener for one subscription, or none. -/
structure Apart (id : SubscriptionId) (d d' : Dispatcher) : Prop extends Quiet d d' where
  fresh : ∀ l, d'.attached.get? id = some l → d.listeners.size ≤ l

/-- What is given to the new listener does not reach those that were there. -/
theorem Apart.give {id : SubscriptionId} {d d' : Dispatcher} (h : Apart id d d') (m : Message) :
    Apart id d (d'.give id m) where
  size_le := by
    rw [size_give]
    exact h.size_le
  attached id' l hl hid := by
    rw [attached_give] at hid
    exact h.attached id' l hl hid
  accepted l hl := by
    have hne : d'.attached.get? id ≠ some l := fun hid => Nat.not_lt.2 (h.fresh l hid) hl
    rw [← h.accepted l hl]
    unfold Dispatcher.accepted
    rw [listener?_give_of_ne hne]
  fresh l hid := by
    rw [attached_give] at hid
    exact h.fresh l hid

theorem Apart.forget {id : SubscriptionId} {d d' : Dispatcher} (h : Apart id d d') : Apart id d (d'.forget id) where
  toQuiet := h.toQuiet.trans (quiet_forget d' id)
  fresh l hid := by
    have hid : (d'.release id).attached.get? id = some l := hid
    rw [get?_attached_release, if_pos rfl] at hid
    cases hid

/-! ## Stopping -/

theorem listener?_stop (d : Dispatcher) (l : ListenerId) :
    d.stop.listener? l = (d.listener? l).map fun x => { x with senderOpen := false } := Table.get?_map ..

/-- Stopping keeps the numbering, and nothing is attached afterwards. -/
theorem Sound.stop {d : Dispatcher} (h : d.Sound) : d.stop.Sound where
  numbered l := by
    rw [listener?_stop, Option.isSome_map, h.numbered]
    exact Iff.of_eq (congrArg (l < ·) (Table.size_map _ d.listeners).symm)
  exclusive _ _ _ hid := by cases hid
  known _ _ hid := by cases hid
  idle _ _ := rfl

theorem quiet_stop (d : Dispatcher) : d.Quiet d.stop where
  size_le := Nat.le_of_eq (Table.size_map _ d.listeners).symm
  accepted l _ := by
    unfold accepted
    rw [listener?_stop, Option.map_map]
    rfl
  attached _ _ _ hid := by cases hid

end Dispatcher

end YangSubscriptions
