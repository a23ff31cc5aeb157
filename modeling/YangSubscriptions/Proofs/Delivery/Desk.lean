import YangSubscriptions.Proofs.Delivery.Emission

/-!
# The desk of a subscription

What a dispatcher holds of one subscription: its flag and its listeners, in the order they were opened, each
with all that is in it and whether it is the one attached. The listeners are counted from the first of the
subscription, so that two dispatchers in which other subscriptions opened more or fewer of them can still have
equal desks. Every operation of the dispatcher changes the desk of its own subscription in a way that the desk
alone decides, and leaves every other desk as it is. That rests on the listeners of a subscription being
attached to no other (`Roster`).
-/

namespace YangSubscriptions

namespace Listener

/-- The listener once it was given a message, accepted or not. -/
def given (x : Listener) (m : Message) : Listener := (x.push? m).getD x

def closed (x : Listener) : Listener := { x with senderOpen := false }

end Listener

/-- A listener of a subscription, and whether it is attached. -/
structure Place where
  listener : Option Listener
  seated : Bool

namespace Place

/-- The attached listener is given a message. -/
def given (m : Message) (p : Place) : Place :=
  { p with listener := if p.seated then p.listener.map (·.given m) else p.listener }

/-- The attached listener is let go. -/
def vacated (p : Place) : Place := ⟨if p.seated then p.listener.map (·.closed) else p.listener, false⟩

/-- The attached listener stays if it is open. -/
def swept (p : Place) : Place := { p with seated := p.seated && p.listener.any (·.isOpen) }

/-- The listener is closed and let go. -/
def stopped (p : Place) : Place := ⟨p.listener.map (·.closed), false⟩

end Place

/-- The listeners of a subscription in the order they were opened, and whether its replay was delivered. -/
structure Desk where
  running : Bool
  replayed : Bool
  places : List Place

namespace Dispatcher

def place (A : SubscriptionId) (d : Dispatcher) (l : ListenerId) : Place := ⟨d.listener? l, d.attached.get? A = some l⟩

/-- What the dispatcher holds of a subscription whose listeners are these. -/
def desk (A : SubscriptionId) (own : List ListenerId) (d : Dispatcher) : Desk :=
  ⟨d.running, d.replayed.contains A, own.map (d.place A)⟩

/-- The listeners of a subscription are read off its desk. -/
theorem listeners_desk (A : SubscriptionId) (own : List ListenerId) (d : Dispatcher) :
    (d.desk A own).places.map (·.listener) = own.map d.listener? := List.map_map ..

/-- These are the listeners of the subscription: no other is attached to it, and they are attached to no other. -/
structure Roster (A : SubscriptionId) (own : List ListenerId) (d : Dispatcher) : Prop where
  sound : d.Sound
  nodup : own.Nodup
  known : ∀ l ∈ own, l < d.listeners.size
  only : ∀ l ∈ own, ∀ k, d.attached.get? k = some l → k = A
  seated : ∀ l, d.attached.get? A = some l → l ∈ own

variable {A k : SubscriptionId} {own : List ListenerId} {d d' : Dispatcher}

theorem roster_of_unattached (h : d.Sound) (hnone : d.attached.get? A = none) : Roster A [] d where
  sound := h
  nodup := .nil
  known _ hl := by cases hl
  only _ hl := by cases hl
  seated l hl := by
    rw [hnone] at hl
    cases hl

namespace Roster

/-- A roster is kept where listeners are, as long as no stranger is seated for the subscription. -/
theorem of_keeps (h : Roster A own d) (hsound : d'.Sound) (hkeeps : d.Keeps d')
    (hseated : ∀ l, d'.attached.get? A = some l → d.attached.get? A = some l) : Roster A own d' where
  sound := hsound
  nodup := h.nodup
  known l hl := Nat.lt_of_lt_of_le (h.known l hl) hkeeps.size_le
  only l hl k hk := h.only l hl k (hkeeps.attached k l (h.known l hl) hk)
  seated l hl := h.seated l (hseated l hl)

theorem give (h : Roster A own d) (k : SubscriptionId) (m : Message) : Roster A own (d.give k m) := by
  refine h.of_keeps (h.sound.give k m) ⟨Nat.le_of_eq (size_give ..).symm, fun id l _ hid => ?_⟩ fun l hl => ?_
  · rwa [attached_give] at hid
  · rwa [attached_give] at hl

theorem forget (h : Roster A own d) (k : SubscriptionId) : Roster A own (d.forget k) := by
  refine h.of_keeps (h.sound.forget k) (quiet_forget d k).toKeeps fun l hl => ?_
  change (d.release k).attached.get? A = some l at hl
  rw [get?_attached_release] at hl
  split at hl
  · cases hl
  · exact hl

theorem dropClosed (h : Roster A own d) : Roster A own d.dropClosed := by
  have hattached : ∀ k l, d.dropClosed.attached.get? k = some l → d.attached.get? k = some l := fun k l hl =>
    ((get?_attached_dropClosed d k l).1 hl).1
  have hquiet : d.Quiet d.dropClosed := quiet_of_attached rfl hattached
  exact h.of_keeps h.sound.dropClosed hquiet.toKeeps (hattached A)

theorem seat_of_ne (h : Roster A own d) (hk : k ≠ A) (hrunning : d.running = true) (capacity : Nat) :
    Roster A own (d.seat k capacity) := by
  refine h.of_keeps (h.sound.seat k capacity hrunning) (h.sound.quiet_seat k capacity).toKeeps fun l hl => ?_
  rwa [get?_attached_seat, if_neg hk] at hl

theorem turnAway_of_ne (h : Roster A own d) (capacity : Nat) : Roster A own (d.turnAway capacity) :=
  h.of_keeps (h.sound.turnAway capacity) (h.sound.quiet_turnAway capacity).toKeeps fun _ hl => hl

/-- A listener that was just opened joins them. -/
theorem join (h : Roster A own d) (hsound : d'.Sound) (hsize : d.listeners.size < d'.listeners.size)
    (hattached : ∀ k l, d'.attached.get? k = some l →
      (k = A ∧ l = d.listeners.size) ∨ d.attached.get? k = some l) :
    Roster A (own ++ [d.listeners.size]) d' where
  sound := hsound
  nodup := by
    rw [List.nodup_append]
    refine ⟨h.nodup, List.nodup_singleton _, fun l hl l' hl' => ?_⟩
    rw [List.mem_singleton] at hl'
    exact hl' ▸ Nat.ne_of_lt (h.known l hl)
  known l hl := by
    rcases List.mem_append.1 hl with hl | hl
    · exact Nat.lt_trans (h.known l hl) hsize
    · exact List.mem_singleton.1 hl ▸ hsize
  only l hl k hk := by
    rcases hattached k l hk with ⟨hA, -⟩ | hk
    · exact hA
    · rcases List.mem_append.1 hl with hl | hl
      · exact h.only l hl k hk
      · rw [List.mem_singleton.1 hl] at hk
        exact absurd (h.sound.known k _ hk) (Nat.lt_irrefl _)
  seated l hl := by
    rcases hattached A l hl with ⟨-, rfl⟩ | hl
    · exact List.mem_append_right _ List.mem_cons_self
    · exact List.mem_append_left _ (h.seated l hl)

theorem seat (h : Roster A own d) (hrunning : d.running = true) (capacity : Nat) :
    Roster A (own ++ [d.listeners.size]) (d.seat A capacity) := by
  refine h.join (h.sound.seat A capacity hrunning) ?_ fun k l hk => ?_
  · exact (h.sound.seat A capacity hrunning).known A _ (by rw [get?_attached_seat, if_pos rfl])
  · rw [get?_attached_seat] at hk
    split at hk
    · rename_i hA
      exact .inl ⟨hA.symm, (Option.some.inj hk).symm⟩
    · exact .inr hk

theorem turnAway (h : Roster A own d) (capacity : Nat) :
    Roster A (own ++ [d.listeners.size]) (d.turnAway capacity) := by
  refine h.join (h.sound.turnAway capacity) ?_ fun k l hk => .inr hk
  rw [Dispatcher.turnAway, closeSender, size_modifyListener, h.sound.size_openListener]
  exact Nat.lt_succ_self _

/-! ## What a desk tells -/

/-- What holds of the attached listener is seen at the desk. -/
theorem any_places (h : Roster A own d) (q : Option Listener → Bool) :
    (d.attached.get? A).any (fun l => q (d.listener? l)) =
      (d.desk A own).places.any fun p => p.seated && q p.listener := by
  rw [Bool.eq_iff_iff]
  simp only [desk, List.any_map, List.any_eq_true, Option.any_eq_true, place, Function.comp_apply, Bool.and_eq_true,
    decide_eq_true_eq]
  constructor
  · rintro ⟨l, hl, hq⟩
    exact ⟨l, h.seated l hl, hl, hq⟩
  · rintro ⟨l, -, hl, hq⟩
    exact ⟨l, hl, hq⟩

theorem contains_eq (h : Roster A own d) : d.attached.contains A = (d.desk A own).places.any (·.seated) := by
  have hany := h.any_places fun _ => true
  simp only [Bool.and_true] at hany
  rw [← hany, Table.contains]
  cases d.attached.get? A <;> rfl

/-- Whether it has an open listener, the desk tells. -/
theorem hasOpenListener_eq (h : Roster A own d) :
    d.hasOpenListener A = (d.desk A own).places.any fun p => p.seated && p.listener.any (·.isOpen) := by
  rw [← h.any_places fun x? => x?.any (·.isOpen), hasOpenListener, attachedTo?]
  cases d.attached.get? A <;> rfl

theorem isSome_push? (h : Roster A own d) (m : Message) :
    (d.push? A m).isSome = (d.desk A own).places.any fun p => p.seated && p.listener.any (·.takes) := by
  rw [← h.any_places fun x? => x?.any (·.takes), push?_eq, Option.isSome_map]
  cases d.attached.get? A with
  | none => rfl
  | some l =>
    show ((some l).filter d.takes).isSome = d.takes l
    cases htakes : d.takes l <;> simp [Option.filter, htakes]

end Roster

/-! ## Giving and letting go -/

theorem listener?_give_of_attached {l : ListenerId} (h : d.attached.get? A = some l) (m : Message) :
    (d.give A m).listener? l = (d.listener? l).map (·.given m) := by
  unfold give
  rw [push?_eq, h]
  cases hx : d.listener? l with
  | none => simp [Option.filter, takes, hx]
  | some x =>
    cases htakes : x.takes with
    | false => simp [Option.filter, takes, hx, htakes, Listener.given, Listener.push?_eq]
    | true =>
      simp only [Option.filter, takes, hx, htakes, Option.any_some, if_true, Option.map_some, Option.getD_some, put,
        listener?_modifyListener, Listener.given, Listener.push?_eq]

theorem listener?_release_of_attached {l : ListenerId} (h : d.attached.get? A = some l) :
    (d.release A).listener? l = (d.listener? l).map (·.closed) := by
  unfold release
  rw [h]
  show (d.closeSender l).listener? l = _
  rw [closeSender, listener?_modifyListener, if_pos rfl]
  rfl

theorem running_give (d : Dispatcher) (k : SubscriptionId) (m : Message) : (d.give k m).running = d.running := by
  rcases d.give_cases k m with he | ⟨l, -, he⟩ <;> rw [he]
  rfl

theorem replayed_give (d : Dispatcher) (k : SubscriptionId) (m : Message) : (d.give k m).replayed = d.replayed :=
  d.replayed_tell k (some m)

theorem place_give (d : Dispatcher) (m : Message) (l : ListenerId) :
    (d.give A m).place A l = (d.place A l).given m := by
  unfold place Place.given
  rw [attached_give]
  by_cases hl : d.attached.get? A = some l
  · simp only [hl, decide_true, if_true, listener?_give_of_attached hl]
  · simp only [hl, decide_false, Bool.false_eq_true, if_false, listener?_give_of_ne hl]

theorem place_release (d : Dispatcher) (l : ListenerId) : (d.release A).place A l = (d.place A l).vacated := by
  unfold place Place.vacated
  rw [get?_attached_release, if_pos rfl]
  by_cases hl : d.attached.get? A = some l
  · simp only [hl, decide_true, if_true, listener?_release_of_attached hl, reduceCtorEq, decide_false]
  · simp only [hl, decide_false, Bool.false_eq_true, if_false, listener?_release_of_ne hl, reduceCtorEq]

namespace Roster

variable (h : Roster A own d)
include h

/-- A message changes the desk it is given at, and no other. -/
theorem desk_give (k : SubscriptionId) (m : Message) :
    (d.give k m).desk A own =
      if k = A then { d.desk A own with places := (d.desk A own).places.map (·.given m) } else d.desk A own := by
  unfold desk
  rw [running_give, replayed_give]
  by_cases hk : k = A
  · subst hk
    simp only [if_true, List.map_map]
    exact congrArg (Desk.mk _ _) (List.map_congr_left fun l _ => place_give d m l)
  · rw [if_neg hk]
    refine congrArg (Desk.mk _ _) (List.map_congr_left fun l hl => ?_)
    rw [place, attached_give, listener?_give_of_ne (fun hattached => hk (h.only l hl k hattached)), place]

theorem places_release (k : SubscriptionId) :
    own.map ((d.release k).place A) =
      if k = A then (d.desk A own).places.map (·.vacated) else (d.desk A own).places := by
  by_cases hk : k = A
  · subst hk
    rw [if_pos rfl, desk, List.map_map]
    exact List.map_congr_left fun l _ => place_release d l
  · rw [if_neg hk]
    refine List.map_congr_left fun l hl => ?_
    rw [place, get?_attached_release, if_neg hk,
      listener?_release_of_ne fun hattached => hk (h.only l hl k hattached), place]

/-- So does letting go of the listener. -/
theorem desk_forget (k : SubscriptionId) :
    (d.forget k).desk A own =
      if k = A then { d.desk A own with replayed := false, places := (d.desk A own).places.map (·.vacated) }
      else d.desk A own := by
  have hplaces : own.map ((d.forget k).place A) = _ := h.places_release k
  unfold desk at hplaces ⊢
  rw [hplaces, running_forget, replayed_forget, Table.contains_erase]
  by_cases hk : k = A <;> simp [hk]

end Roster

theorem desk_dropClosed (A : SubscriptionId) (own : List ListenerId) (d : Dispatcher) :
    d.dropClosed.desk A own = { d.desk A own with places := (d.desk A own).places.map (·.swept) } := by
  unfold desk
  simp only [List.map_map]
  refine congrArg (Desk.mk _ _) (List.map_congr_left fun l _ => ?_)
  simp only [place, Function.comp_apply, Place.swept, Place.mk.injEq]
  refine ⟨rfl, ?_⟩
  rw [Bool.eq_iff_iff, decide_eq_true_iff, get?_attached_dropClosed, Bool.and_eq_true, decide_eq_true_iff]

/-- When the dispatcher stops, every place is left. -/
theorem desk_stop (A : SubscriptionId) (own : List ListenerId) (d : Dispatcher) :
    d.stop.desk A own = ⟨false, false, (d.desk A own).places.map (·.stopped)⟩ := by
  unfold desk
  rw [List.map_map]
  refine congrArg (Desk.mk _ _) (List.map_congr_left fun l _ => ?_)
  rw [place, listener?_stop]
  rfl

theorem desk_replayed (A : SubscriptionId) (own : List ListenerId) (d : Dispatcher) (k : SubscriptionId) :
    Dispatcher.desk A own { d with replayed := d.replayed.insert k () } =
      if k = A then { d.desk A own with replayed := true } else d.desk A own := by
  show Desk.mk d.running ((d.replayed.insert k ()).contains A) (own.map (d.place A)) = _
  rw [Table.contains_insert]
  by_cases hk : k = A <;> simp [hk, desk]

/-! ## New listeners -/

theorem desk_append (A : SubscriptionId) (own : List ListenerId) (l : ListenerId) (d : Dispatcher) :
    d.desk A (own ++ [l]) = { d.desk A own with places := (d.desk A own).places ++ [d.place A l] } := by
  simp only [desk, List.map_append, List.map_cons, List.map_nil]

namespace Roster

variable (h : Roster A own d)
include h

theorem listener?_openListener {l : ListenerId} (hl : l ∈ own) (capacity : Nat) :
    (d.openListener capacity).2.listener? l = d.listener? l := by
  rw [Dispatcher.listener?_openListener, if_neg (Nat.ne_of_gt (h.known l hl))]

theorem desk_turnAway (capacity : Nat) : (d.turnAway capacity).desk A own = d.desk A own := by
  refine congrArg (Desk.mk _ _) (List.map_congr_left fun l hl => ?_)
  have hlistener : (d.turnAway capacity).listener? l = d.listener? l := by
    rw [Dispatcher.turnAway, closeSender, listener?_modifyListener, if_neg (Nat.ne_of_gt (h.known l hl)),
      h.listener?_openListener hl]
  rw [place, hlistener]
  rfl

theorem place_turnAway (capacity : Nat) :
    (d.turnAway capacity).place A d.listeners.size = ⟨some (Listener.opened capacity).closed, false⟩ := by
  have hlistener : (d.turnAway capacity).listener? d.listeners.size = some (Listener.opened capacity).closed := by
    rw [Dispatcher.turnAway, closeSender, listener?_modifyListener, if_pos rfl, Dispatcher.listener?_openListener,
      if_pos rfl]
    rfl
  have hnew : d.attached.get? A ≠ some d.listeners.size := fun hA => Nat.lt_irrefl _ (h.sound.known A _ hA)
  unfold place
  rw [hlistener]
  exact congrArg (Place.mk _) (decide_eq_false hnew)

theorem desk_seat_of_ne (hk : k ≠ A) (capacity : Nat) : (d.seat k capacity).desk A own = d.desk A own := by
  unfold desk
  rw [running_seat, replayed_seat]
  refine congrArg (Desk.mk _ _) (List.map_congr_left fun l hl => ?_)
  have hlistener : (d.seat k capacity).listener? l = d.listener? l :=
    (listener?_release_of_ne (d := (d.openListener capacity).2) fun hattached => hk (h.only l hl k hattached)).trans
      (h.listener?_openListener hl capacity)
  rw [place, get?_attached_seat, if_neg hk, hlistener, place]

theorem desk_seat (capacity : Nat) :
    (d.seat A capacity).desk A own =
      { d.desk A own with places := (d.desk A own).places.map (·.vacated) } := by
  unfold desk
  rw [running_seat, replayed_seat, List.map_map]
  refine congrArg (Desk.mk _ _) (List.map_congr_left fun l hl => ?_)
  have hopened : (d.openListener capacity).2.place A l = d.place A l := by
    rw [place, h.listener?_openListener hl]
    rfl
  have hreleased := (d.openListener capacity).2.place_release (A := A) l
  rw [hopened] at hreleased
  have hne : d.listeners.size ≠ l := Nat.ne_of_gt (h.known l hl)
  show _ = (d.place A l).vacated
  rw [← hreleased, place, get?_attached_seat, if_pos rfl, place, get?_attached_release, if_pos rfl]
  simp only [Option.some.injEq, hne, decide_false, reduceCtorEq]
  rfl

theorem place_seat (capacity : Nat) :
    (d.seat A capacity).place A d.listeners.size = ⟨some (.opened capacity), true⟩ := by
  have hnew : (d.openListener capacity).2.attached.get? A ≠ some d.listeners.size := fun hA =>
    Nat.lt_irrefl _ (h.sound.known A _ hA)
  have hlistener : (d.seat A capacity).listener? d.listeners.size = some (.opened capacity) := by
    refine (listener?_release_of_ne hnew).trans ?_
    rw [Dispatcher.listener?_openListener, if_pos rfl]
  unfold place
  rw [hlistener, get?_attached_seat, if_pos rfl, decide_eq_true rfl]

/-! ## Listeners that receivers use -/

/-- A change of one listener is seen at its place, and nowhere if it is another subscription's. -/
theorem desk_modifyListener (l : ListenerId) (f : Listener → Listener) :
    (d.modifyListener l f).desk A own =
      { d.desk A own with
        places := (d.desk A own).places.modify (own.idxOf l) fun p => { p with listener := p.listener.map f } } := by
  unfold desk
  refine congrArg (Desk.mk _ _) (List.ext_getElem? fun i => ?_)
  simp only [List.getElem?_modify, List.getElem?_map, Option.map_eq_map]
  cases hi : own[i]? with
  | none => rfl
  | some l' =>
    simp only [Option.map_some, place, listener?_modifyListener]
    obtain ⟨hlt, rfl⟩ := List.getElem?_eq_some_iff.1 hi
    have hindex : own.idxOf l = i ↔ l = own[i] := by
      constructor
      · rintro rfl
        exact (List.getElem_idxOf hlt).symm
      · rintro rfl
        exact h.nodup.idxOf_getElem i hlt
    by_cases hl : l = own[i]
    · rw [if_pos hl, if_pos (hindex.2 hl)]
      rfl
    · rw [if_neg hl, if_neg (mt hindex.1 hl)]
      rfl

end Roster

end Dispatcher

end YangSubscriptions
