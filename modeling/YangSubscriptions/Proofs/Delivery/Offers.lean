import YangSubscriptions.Proofs.Delivery.Feeds
import YangSubscriptions.Proofs.Delivery.Listeners
import YangSubscriptions.Proofs.Service.Records

/-!
# Offers

What one notification from a feed does to the listeners (`accepted_dispatch`): the verdict on each
attached subscription is made in one and the same state, whatever the offers before it did, and each
listener is given the message of its own subscription.
-/

namespace YangSubscriptions

/-- The message that a verdict allows, if any. -/
def Verdict.message? : Verdict → Option Message
  | .message m => some m
  | .unaffected | .excluded | .unencodable => none

namespace Dispatcher

/-- Gives the message of a verdict to the listener of its subscription. -/
def heed (d : Dispatcher) (id : SubscriptionId) : Verdict → Dispatcher
  | .message m => d.give id m
  | .unaffected | .excluded | .unencodable => d

@[simp] theorem attached_heed (d : Dispatcher) (id : SubscriptionId) (v : Verdict) :
    (d.heed id v).attached = d.attached := by
  cases v <;> simp [heed]

@[simp] theorem size_heed (d : Dispatcher) (id : SubscriptionId) (v : Verdict) :
    (d.heed id v).listeners.size = d.listeners.size := by
  cases v <;> simp [heed]

theorem Sound.heed {d : Dispatcher} (h : d.Sound) (id : SubscriptionId) (v : Verdict) : (d.heed id v).Sound := by
  cases v with
  | message m => exact h.give id m
  | _ => exact h

theorem listener?_heed_of_ne {d : Dispatcher} {id : SubscriptionId} {l : ListenerId} (h : d.attached.get? id ≠ some l)
    (v : Verdict) : (d.heed id v).listener? l = d.listener? l := by
  cases v with
  | message m => exact listener?_give_of_ne h m
  | _ => rfl

theorem accepted_heed {d : Dispatcher} {id : SubscriptionId} {l : ListenerId} (h : d.attached.get? id = some l)
    (v : Verdict) : (d.heed id v).accepted l = d.accepted l ++ if d.takes l then v.message?.toList else [] := by
  cases v with
  | message m => exact accepted_give h m
  | _ => simp [heed, Verdict.message?]

/-! ## One verdict after another -/

section
variable (v : SubscriptionId → Verdict)

/-- Heeds the verdicts on several subscriptions. -/
def heedAll (d : Dispatcher) (ids : List SubscriptionId) : Dispatcher := ids.foldl (fun d id => d.heed id (v id)) d

theorem attached_heedAll (ids : List SubscriptionId) (d : Dispatcher) : (d.heedAll v ids).attached = d.attached := by
  induction ids generalizing d with
  | nil => rfl
  | cons id ids ih => exact (ih (d.heed id (v id))).trans (attached_heed ..)

theorem size_heedAll (ids : List SubscriptionId) (d : Dispatcher) :
    (d.heedAll v ids).listeners.size = d.listeners.size := by
  induction ids generalizing d with
  | nil => rfl
  | cons id ids ih => exact (ih (d.heed id (v id))).trans (size_heed ..)

theorem Sound.heedAll {d : Dispatcher} (h : d.Sound) (ids : List SubscriptionId) : (d.heedAll v ids).Sound := by
  induction ids generalizing d with
  | nil => exact h
  | cons id ids ih => exact ih (h.heed id (v id))

theorem listener?_heedAll_of_ne (ids : List SubscriptionId) {d : Dispatcher} {l : ListenerId}
    (h : ∀ id ∈ ids, d.attached.get? id ≠ some l) : (d.heedAll v ids).listener? l = d.listener? l := by
  induction ids generalizing d with
  | nil => rfl
  | cons id ids ih =>
    have hrest : ∀ id' ∈ ids, (d.heed id (v id)).attached.get? id' ≠ some l := by
      intro id' hid'
      rw [attached_heed]
      exact h id' (List.mem_cons_of_mem _ hid')
    exact (ih hrest).trans (listener?_heed_of_ne (h id List.mem_cons_self) (v id))

/-- A listener is given the message of its own subscription, once. -/
theorem accepted_heedAll {d : Dispatcher} (hsound : d.Sound) {id : SubscriptionId} {l : ListenerId}
    (h : d.attached.get? id = some l) {ids : List SubscriptionId} (hnodup : ids.Nodup) (hid : id ∈ ids) :
    (d.heedAll v ids).accepted l = d.accepted l ++ if d.takes l then (v id).message?.toList else [] := by
  induction ids generalizing d with
  | nil => cases hid
  | cons id' ids ih =>
    obtain ⟨hnotin, hnodup⟩ := List.nodup_cons.1 hnodup
    rcases List.mem_cons.1 hid with rfl | hid
    · -- nobody else is given anything through this listener
      have hrest : ∀ id' ∈ ids, (d.heed id (v id)).attached.get? id' ≠ some l := by
        intro id' hid' hl
        rw [attached_heed] at hl
        exact hnotin (hsound.exclusive id' id l hl h ▸ hid')
      have hsame := listener?_heedAll_of_ne v ids hrest
      rw [← accepted_heed h]
      show ((((d.heed id (v id)).heedAll v ids).listener? l).map _).getD [] = _
      rw [hsame]
      rfl
    · have hne : d.attached.get? id' ≠ some l := by
        intro hl
        exact hnotin (hsound.exclusive id' id l hl h ▸ hid)
      have hsame := listener?_heed_of_ne hne (v id')
      have hih := ih (hsound.heed id' (v id')) (by rw [attached_heed, h]) hnodup hid
      unfold accepted takes at hih ⊢
      rw [hsame] at hih
      exact hih

end

end Dispatcher

namespace Service

/-! ## Offers of a service -/

/-- A service but for what offers change: the tallies and the listeners. -/
def bare (s : Service) : Service :=
  { s with registry := s.registry.untallied, dispatcher := { s.dispatcher with listeners := .empty } }

/-- Offers change nothing that a verdict depends on. -/
theorem verdict_bare (s : Service) (id : SubscriptionId) (stream : String) (n : Notification) :
    s.bare.verdict id stream n = s.verdict id stream n := rfl

theorem dispatcher_give (s : Service) (id : SubscriptionId) (m : Message) :
    (s.give id m).2.dispatcher = s.dispatcher.give id m := by
  unfold give Dispatcher.give
  cases s.dispatcher.push? id m <;> rfl

theorem bare_give (s : Service) (id : SubscriptionId) (m : Message) : (s.give id m).2.bare = s.bare := by
  have hframe : ∀ d, s.dispatcher.push? id m = some d →
      ({ d with listeners := .empty } : Dispatcher) = { s.dispatcher with listeners := .empty } := by
    intro d hd
    rw [Dispatcher.push?_eq] at hd
    obtain ⟨l, -, rfl⟩ := Option.map_eq_some_iff.1 hd
    rfl
  unfold give
  cases hpush : s.dispatcher.push? id m with
  | none => rfl
  | some d =>
    show { s with registry := s.registry.untallied, dispatcher := { d with listeners := .empty } } = s.bare
    rw [hframe d hpush]
    rfl

theorem dispatcher_offer (s : Service) (id : SubscriptionId) (stream : String) (n : Notification) :
    (s.offer id stream n).dispatcher = s.dispatcher.heed id (s.verdict id stream n) := by
  unfold offer
  cases s.verdict id stream n with
  | message m => exact dispatcher_give s id m
  | _ => rfl

theorem bare_offer (s : Service) (id : SubscriptionId) (stream : String) (n : Notification) :
    (s.offer id stream n).bare = s.bare := by
  unfold offer
  cases s.verdict id stream n with
  | message m => exact bare_give s id m
  | _ => rfl

/-- The verdicts of a round of offers are all made in the state it starts from. -/
theorem dispatcher_foldl_offer (ids : List SubscriptionId) (s : Service) (stream : String) (n : Notification) :
    (ids.foldl (fun s id => s.offer id stream n) s).dispatcher =
      s.dispatcher.heedAll (fun id => s.verdict id stream n) ids := by
  induction ids generalizing s with
  | nil => rfl
  | cons id ids ih =>
    have hsame : (fun id' => (s.offer id stream n).verdict id' stream n) = fun id' => s.verdict id' stream n := by
      funext id'
      rw [← verdict_bare, bare_offer, verdict_bare]
    rw [List.foldl_cons, ih, hsame, dispatcher_offer]
    rfl

theorem bare_foldl_offer {α : Type} (f : α → SubscriptionId × String × Notification) (xs : List α) (s : Service) :
    (xs.foldl (fun s x => s.offer (f x).1 (f x).2.1 (f x).2.2) s).bare = s.bare := by
  induction xs generalizing s with
  | nil => rfl
  | cons x xs ih => rw [List.foldl_cons, ih, bare_offer]

/-! ## Dispatch -/

/-- A notification that a feed yielded, before it is offered. -/
def recorded (s : Service) (stream : String) (n : Notification) : Service :=
  { s with
    router := s.router.shift stream
    streams := s.streams.record stream n
    dispatcher := s.dispatcher.dropClosed }

theorem dispatch_eq (s : Service) (stream : String) :
    s.dispatch stream =
      match (s.router.queue stream).head? with
      | some n =>
        (s.dispatcher.dropClosed.attached.keys).foldl (fun s id => s.offer id stream n) (s.recorded stream n)
      | none => s := by
  unfold dispatch
  rw [Router.take?_eq]
  cases (s.router.queue stream).head? <;> rfl

section
variable {s : Service} {stream : String} {n : Notification} (h : (s.router.queue stream).head? = some n)
include h

theorem dispatcher_dispatch :
    (s.dispatch stream).dispatcher =
      s.dispatcher.dropClosed.heedAll (fun id => s.verdict id stream n) s.dispatcher.dropClosed.attached.keys := by
  rw [dispatch_eq, h]
  exact dispatcher_foldl_offer ..

theorem bare_dispatch : (s.dispatch stream).bare = (s.recorded stream n).bare := by
  rw [dispatch_eq, h]
  exact bare_foldl_offer (fun id => (id, stream, n)) _ _

end

theorem dispatch_of_head?_none {s : Service} {stream : String} (h : (s.router.queue stream).head? = none) :
    s.dispatch stream = s := by
  rw [dispatch_eq, h]

/-- What a notification from a feed brings to the listener of a subscription. -/
theorem accepted_dispatch {s : Service} (hsound : s.dispatcher.Sound) {id : SubscriptionId} {l : ListenerId}
    (hid : s.dispatcher.attached.get? id = some l) {stream : String} {n : Notification}
    (h : (s.router.queue stream).head? = some n) :
    (s.dispatch stream).dispatcher.accepted l =
      s.dispatcher.accepted l ++ if s.dispatcher.takes l then (s.verdict id stream n).message?.toList else [] := by
  rw [dispatcher_dispatch h]
  cases hopen : (s.dispatcher.listener? l).any (·.isOpen) with
  | true =>
    have hkept : s.dispatcher.dropClosed.attached.get? id = some l :=
      (Dispatcher.get?_attached_dropClosed ..).2 ⟨hid, hopen⟩
    have hmem : id ∈ s.dispatcher.dropClosed.attached.keys := by
      rw [Table.mem_keys_iff, hkept]
      rfl
    exact Dispatcher.accepted_heedAll _ hsound.dropClosed hkept (Table.keys_nodup _) hmem
  | false =>
    have hnobody : ∀ id' ∈ s.dispatcher.dropClosed.attached.keys,
        s.dispatcher.dropClosed.attached.get? id' ≠ some l := by
      intro id' _ hl
      rw [((Dispatcher.get?_attached_dropClosed ..).1 hl).2] at hopen
      cases hopen
    have hsame := Dispatcher.listener?_heedAll_of_ne (fun id => s.verdict id stream n) _ hnobody
    rw [Dispatcher.takes_of_not_open hopen, if_neg Bool.false_ne_true, List.append_nil]
    unfold Dispatcher.accepted
    rw [hsame]
    rfl

theorem accepted_dispatch_of_unattached {s : Service} {l : ListenerId}
    (hl : ∀ id, s.dispatcher.attached.get? id ≠ some l) (stream : String) :
    (s.dispatch stream).dispatcher.accepted l = s.dispatcher.accepted l := by
  cases h : (s.router.queue stream).head? with
  | none => rw [dispatch_of_head?_none h]
  | some n =>
    have hnobody : ∀ id ∈ s.dispatcher.dropClosed.attached.keys, s.dispatcher.dropClosed.attached.get? id ≠ some l :=
      fun id _ hid => hl id ((Dispatcher.get?_attached_dropClosed ..).1 hid).1
    have hsame := Dispatcher.listener?_heedAll_of_ne (fun id => s.verdict id stream n) _ hnobody
    rw [dispatcher_dispatch h]
    unfold Dispatcher.accepted
    rw [hsame]
    rfl

end Service

end YangSubscriptions
