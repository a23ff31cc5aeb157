import YangSubscriptions.Proofs.Delivery.Order

/-!
# Once only

The replay of a subscription is delivered with its first attachment, and a flag tells so. Only letting
go of its listener for good takes the flag back (`replayed_move`), so that as long as this does not
happen attaching again replays nothing (`Replayed.accepted_attach`); and a subscription that was never attached
has neither a listener nor the flag (`Untouched.moves`).
-/

namespace YangSubscriptions

/-- Does the move let go of a subscription's listener for good? -/
def Move.forgets (id : SubscriptionId) : Move → Bool
  | detach id' => id' = id
  | deliver change _ => change.id = id && change.isTerminal
  | _ => false

namespace Dispatcher

@[simp] theorem replayed_tell (d : Dispatcher) (id : SubscriptionId) (message? : Option Message) :
    (d.tell id message?).replayed = d.replayed := by
  cases message? with
  | none => rfl
  | some m =>
    show (d.give id m).replayed = d.replayed
    rcases d.give_cases id m with he | ⟨l, -, he⟩ <;> rw [he]
    rfl

@[simp] theorem replayed_release (d : Dispatcher) (id : SubscriptionId) : (d.release id).replayed = d.replayed := by
  rcases d.release_cases id with he | ⟨l, he⟩ <;> rw [he]
  rfl

@[simp] theorem replayed_forget (d : Dispatcher) (id : SubscriptionId) :
    (d.forget id).replayed = d.replayed.erase id := rfl

theorem replayed_seat (d : Dispatcher) (id : SubscriptionId) (capacity : Nat) :
    (d.seat id capacity).replayed = d.replayed := replayed_release (d.openListener capacity).2 id

end Dispatcher

namespace Service

/-! ## The flags -/

theorem attached_of_bare {s t : Service} (h : s.bare = t.bare) : s.dispatcher.attached = t.dispatcher.attached :=
  congrArg (fun s => s.dispatcher.attached) h

theorem replayed_of_bare {s t : Service} (h : s.bare = t.bare) : s.dispatcher.replayed = t.dispatcher.replayed :=
  congrArg (fun s => s.dispatcher.replayed) h

theorem replayed_deliver (s : Service) (change : StateChange) (encoding : Encoding) :
    (s.deliver change encoding).2.dispatcher.replayed = s.dispatcher.replayed ∨
      (change.isTerminal = true ∧
        (s.deliver change encoding).2.dispatcher.replayed = s.dispatcher.replayed.erase change.id) := by
  rcases s.dispatcher_deliver change encoding with he | ⟨hterminal, he⟩
  · rw [he]
    exact .inl (Dispatcher.replayed_tell ..)
  · rw [he]
    exact .inr ⟨hterminal, by rw [Dispatcher.replayed_forget, Dispatcher.replayed_tell]⟩

theorem replayed_detach (s : Service) (id : SubscriptionId) :
    (s.detach id).2.dispatcher.replayed = s.dispatcher.replayed ∨
      (s.detach id).2.dispatcher.replayed = s.dispatcher.replayed.erase id := by
  unfold detach
  split
  · exact .inr (Dispatcher.replayed_forget ..)
  · exact .inl rfl

/-- A replay leaves the attachments alone, and sets one flag at most. -/
theorem replay_frame (s : Service) (id : SubscriptionId) :
    (s.replay id).dispatcher.attached = s.dispatcher.attached ∧
      ((s.replay id).dispatcher.replayed = s.dispatcher.replayed ∨
        (s.replay id).dispatcher.replayed = s.dispatcher.replayed.insert id ()) := by
  rcases s.replay_cases id with ⟨-, he⟩ | ⟨sub, events, -, -, he⟩
  · rw [he]
    exact ⟨rfl, .inl rfl⟩
  · let t : Service := { s with dispatcher := { s.dispatcher with replayed := s.dispatcher.replayed.insert id () } }
    let u := events.foldl (fun (s : Service) n => s.offer id sub.stream n) t
    have hbare : u.bare = t.bare := bare_foldl_offer (fun n => (id, sub.stream, n)) events t
    rcases u.dispatcher_deliver (.replayCompleted id) sub.encoding with hu | ⟨hterminal, -⟩
    · rw [he]
      have hattached : u.dispatcher.attached = t.dispatcher.attached := attached_of_bare hbare
      have hreplayed : u.dispatcher.replayed = t.dispatcher.replayed := replayed_of_bare hbare
      rw [hu, Dispatcher.attached_tell, Dispatcher.replayed_tell, hattached, hreplayed]
      exact ⟨rfl, .inr rfl⟩
    · cases hterminal

/-- Attaching sets the flag of the attached subscription at most. -/
theorem replayed_attach (s : Service) (id : SubscriptionId) (capacity : Nat) (replace : Bool) :
    (s.attach id capacity replace).2.2.dispatcher.replayed = s.dispatcher.replayed ∨
      (s.attach id capacity replace).2.2.dispatcher.replayed = s.dispatcher.replayed.insert id () := by
  rcases s.attach_cases id capacity replace with he | ⟨-, he⟩
  · rw [he]
    exact .inl rfl
  · rw [he, ← s.dispatcher.replayed_seat id capacity]
    exact (replay_frame _ id).2

/-- Everything that a move can make of the flags. -/
theorem replayed_move (s : Service) (m : Move) :
    (s.move m).dispatcher.replayed = s.dispatcher.replayed ∨
      (∃ id capacity replace, m = .attach id capacity replace ∧
        (s.move m).dispatcher.replayed = s.dispatcher.replayed.insert id ()) ∨
      (∃ id, m.forgets id = true ∧ (s.move m).dispatcher.replayed = s.dispatcher.replayed.erase id) ∨
      ((s.move m).dispatcher.running = false ∧ (s.move m).dispatcher.replayed = .empty) := by
  cases m with
  | publish n => exact .inl rfl
  | dispatch stream =>
    cases hhead : (s.router.queue stream).head? with
    | none => exact .inl (congrArg (fun s => s.dispatcher.replayed) (dispatch_of_head?_none hhead))
    | some n =>
      have hreplayed : (s.dispatch stream).dispatcher.replayed = (s.recorded stream n).dispatcher.replayed :=
        replayed_of_bare (bare_dispatch hhead)
      exact .inl hreplayed
  | attach id capacity replace =>
    rcases s.replayed_attach id capacity replace with he | he
    · exact .inl he
    · exact .inr (.inl ⟨id, capacity, replace, rfl, he⟩)
  | detach id =>
    rcases s.replayed_detach id with he | he
    · exact .inl he
    · exact .inr (.inr (.inl ⟨id, decide_eq_true rfl, he⟩))
  | deliver change encoding =>
    rcases s.replayed_deliver change encoding with he | ⟨hterminal, he⟩
    · exact .inl he
    · exact .inr (.inr (.inl ⟨change.id, by simp [Move.forgets, hterminal], he⟩))
  | receive l max =>
    refine .inl ?_
    show (s.receive l max).2.dispatcher.replayed = _
    unfold receive
    split <;> rfl
  | hangUp l => exact .inl rfl
  | stop =>
    rw [stop_eq]
    split
    · exact .inr (.inr (.inr ⟨rfl, rfl⟩))
    · exact .inl rfl
  | alter t => exact .inl rfl

/-- Was the replay of a subscription delivered, as long as there is a dispatcher? -/
def Replayed (id : SubscriptionId) (s : Service) : Prop :=
  s.dispatcher.running = true → s.dispatcher.replayed.contains id = true

theorem Replayed.move {id : SubscriptionId} {s : Service} (h : Replayed id s) {m : Move} (hm : m.forgets id = false) :
    Replayed id (s.move m) := by
  intro hrunning
  have hset := h (running_move hrunning)
  rcases s.replayed_move m with he | ⟨id', -, -, -, he⟩ | ⟨id', hforgets, he⟩ | ⟨hstopped, -⟩
  · rw [he, hset]
  · rw [he, Table.contains, Table.get?_insert]
    split
    · rfl
    · exact hset
  · have hne : id' ≠ id := by
      rintro rfl
      rw [hm] at hforgets
      cases hforgets
    rw [he, Table.contains, Table.get?_erase, if_neg hne]
    exact hset
  · rw [hstopped] at hrunning
    cases hrunning

theorem Replayed.moves {id : SubscriptionId} {s : Service} (h : Replayed id s) {ms : List Move}
    (hms : ∀ m ∈ ms, m.forgets id = false) : Replayed id (s.moves ms) := by
  induction ms generalizing s with
  | nil => exact h
  | cons m ms ih => exact ih (h.move (hms m List.mem_cons_self)) fun m' hm' => hms m' (List.mem_cons_of_mem _ hm')

theorem replay_of_replayed {s : Service} {id : SubscriptionId} (h : s.dispatcher.replayed.contains id = true) :
    s.replay id = s := by
  unfold replay
  split
  · rfl
  · split
    · rfl
    · rw [if_pos h]

/-- Attaching again replays nothing. -/
theorem Replayed.accepted_attach {id : SubscriptionId} {s : Service} (hsound : s.dispatcher.Sound) (h : Replayed id s)
    (capacity : Nat) (replace : Bool) (l : ListenerId) :
    (s.move (.attach id capacity replace)).dispatcher.accepted l = s.dispatcher.accepted l := by
  show (s.attach id capacity replace).2.2.dispatcher.accepted l = _
  rcases s.attach_cases id capacity replace with he | ⟨hrunning, he⟩
  · rw [he]
    exact hsound.accepted_turnAway capacity l
  · rw [he]
    have hset : (s.dispatcher.seat id capacity).replayed.contains id = true := by
      rw [Dispatcher.replayed_seat]
      exact h hrunning
    rw [replay_of_replayed hset]
    exact hsound.accepted_seat id capacity l

/-! ## Never attached -/

/-- Was the subscription never attached, or let go of for good? -/
structure Untouched (id : SubscriptionId) (s : Service) : Prop where
  attached : s.dispatcher.attached.get? id = none
  replayed : s.dispatcher.replayed.get? id = none

theorem attached_move {s : Service} {m : Move} {id : SubscriptionId} {l : ListenerId}
    (h : (s.move m).dispatcher.attached.get? id = some l) :
    s.dispatcher.attached.get? id = some l ∨ ∃ capacity replace, m = .attach id capacity replace := by
  have hforget : ∀ (d : Dispatcher) id', (d.forget id').attached.get? id = some l → d.attached.get? id = some l := by
    intro d id' hid
    change (d.release id').attached.get? id = some l at hid
    rw [Dispatcher.get?_attached_release] at hid
    split at hid
    · cases hid
    · exact hid
  cases m with
  | publish n => exact .inl h
  | dispatch stream =>
    change (s.dispatch stream).dispatcher.attached.get? id = some l at h
    cases hhead : (s.router.queue stream).head? with
    | none =>
      rw [dispatch_of_head?_none hhead] at h
      exact .inl h
    | some n =>
      rw [dispatcher_dispatch hhead, Dispatcher.attached_heedAll] at h
      exact .inl ((Dispatcher.get?_attached_dropClosed ..).1 h).1
  | attach id' capacity replace =>
    change (s.attach id' capacity replace).2.2.dispatcher.attached.get? id = some l at h
    rcases s.attach_cases id' capacity replace with he | ⟨-, he⟩
    · rw [he] at h
      exact .inl h
    · rw [he, (replay_frame _ id').1, Dispatcher.get?_attached_seat] at h
      by_cases hid : id' = id
      · exact .inr ⟨capacity, replace, hid ▸ rfl⟩
      · rw [if_neg hid] at h
        exact .inl h
  | detach id' =>
    change (s.detach id').2.dispatcher.attached.get? id = some l at h
    unfold detach at h
    split at h
    · exact .inl (hforget _ id' h)
    · exact .inl h
  | deliver change encoding =>
    change (s.deliver change encoding).2.dispatcher.attached.get? id = some l at h
    rcases s.dispatcher_deliver change encoding with he | ⟨-, he⟩
    · rw [he, Dispatcher.attached_tell] at h
      exact .inl h
    · rw [he] at h
      have htold := hforget _ change.id h
      rw [Dispatcher.attached_tell] at htold
      exact .inl htold
  | receive l' max =>
    change (s.receive l' max).2.dispatcher.attached.get? id = some l at h
    unfold receive at h
    split at h <;> exact .inl h
  | hangUp l' => exact .inl h
  | stop =>
    rw [stop_eq] at h
    split at h
    · cases h
    · exact .inl h
  | alter t => exact .inl h

theorem Untouched.move {id : SubscriptionId} {s : Service} (h : Untouched id s) {m : Move}
    (hm : ∀ capacity replace, m ≠ .attach id capacity replace) : Untouched id (s.move m) := by
  constructor
  · cases hid : (s.move m).dispatcher.attached.get? id with
    | none => rfl
    | some l =>
      rcases attached_move hid with hid | ⟨capacity, replace, he⟩
      · rw [h.attached] at hid
        cases hid
      · exact absurd he (hm capacity replace)
  · rcases s.replayed_move m with he | ⟨id', capacity, replace, rfl, he⟩ | ⟨id', -, he⟩ | ⟨-, he⟩
    · rw [he, h.replayed]
    · have hne : id' ≠ id := fun hid => hm capacity replace (hid ▸ rfl)
      rw [he, Table.get?_insert, if_neg hne, h.replayed]
    · rw [he, Table.get?_erase, h.replayed, ite_self]
    · rw [he, Table.get?_empty]

theorem Untouched.moves {id : SubscriptionId} {s : Service} (h : Untouched id s) {ms : List Move}
    (hms : ∀ capacity replace, .attach id capacity replace ∉ ms) : Untouched id (s.moves ms) := by
  induction ms generalizing s with
  | nil => exact h
  | cons m ms ih =>
    have hm : ∀ capacity replace, m ≠ .attach id capacity replace := fun capacity replace he =>
      hms capacity replace (he ▸ List.mem_cons_self)
    exact ih (h.move hm) fun capacity replace hmem => hms capacity replace (List.mem_cons_of_mem _ hmem)

end Service

end YangSubscriptions
