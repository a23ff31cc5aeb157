import YangSubscriptions.Proofs.Service.Run
import YangSubscriptions.Proofs.Subscription.Registry

/-!
# The records of a service

The part of a service that requests work on: the registry without its tallies, the datastore and the
deadlines. Whatever carries notifications leaves it alone, and with it the schema and the named filters
(`atRest`). Every action makes one of a few turns of the records (`step_turn`); an invariant of them is
proved for each turn, never for each action.
-/

namespace YangSubscriptions

/-- The registry without the tallies, which are counted by deliveries. -/
def Registry.untallied (r : Registry) : Registry := { r with tallies := .empty }

theorem Registry.wf_untallied {r : Registry} : r.untallied.WF ↔ r.WF :=
  ⟨fun h => ⟨h.keyed, h.indexed, h.sound⟩, fun h => ⟨h.keyed, h.indexed, h.sound⟩⟩

/-- Does it carry notifications, or manage what carries them, and nothing else? -/
def Action.carries : Action → Bool
  | publish _ | dispatch _ | listen _ _ | attach _ _ _ | detach _ | receive _ _ | hangUp _ | stop | closeFeeds => true
  | _ => false

structure Records where
  registry : Registry
  datastore : Datastore
  deadlines : Table SubscriptionId Instant

namespace Service

def records (s : Service) : Records := ⟨s.registry.untallied, s.datastore, s.deadlines⟩

@[simp] theorem lookup_records (s : Service) (id : SubscriptionId) :
    s.records.registry.lookup id = s.registry.lookup id := rfl

/-- A service but for what carries notifications and what deliveries leave behind. -/
def atRest (s : Service) : Service :=
  { s with
    streams := { s.streams with streams := .empty }
    registry := s.registry.untallied
    router := .empty
    dispatcher := .empty
    journal := [] }

theorem records_of_atRest {s t : Service} (h : s.atRest = t.atRest) : s.records = t.records := by
  show s.atRest.records = t.atRest.records
  rw [h]

/-- Do the ids of all records meet the condition? -/
def Registered (P : SubscriptionId → Prop) (s : Service) : Prop :=
  ∀ id sub, s.registry.lookup id = some sub → P id ∧ P sub.id

/-! ## Deliveries -/

theorem atRest_give (s : Service) (id : SubscriptionId) (m : Message) : (s.give id m).2.atRest = s.atRest := by
  unfold give
  split <;> rfl

theorem atRest_offer (s : Service) (id : SubscriptionId) (stream : String) (n : Notification) :
    (s.offer id stream n).atRest = s.atRest := by
  unfold offer
  split
  · rfl
  · rfl
  · rfl
  · exact atRest_give ..

theorem atRest_foldl {α : Type} {f : Service → α → Service} (h : ∀ s x, (f s x).atRest = s.atRest)
    (xs : List α) (s : Service) : (xs.foldl f s).atRest = s.atRest := by
  induction xs generalizing s with
  | nil => rfl
  | cons x xs ih => rw [List.foldl_cons, ih, h]

theorem atRest_handle (s : Service) (stream : String) (n : Notification) :
    (s.handle stream n).atRest = s.atRest :=
  (atRest_foldl (fun s id => atRest_offer s id stream n) _ _).trans rfl

theorem atRest_dispatch (s : Service) (stream : String) : (s.dispatch stream).atRest = s.atRest := by
  unfold dispatch
  split
  · rw [atRest_handle]
    rfl
  · rfl

theorem atRest_deliver (s : Service) (change : StateChange) (encoding : Encoding) :
    (s.deliver change encoding).2.atRest = s.atRest := by
  unfold deliver
  by_cases hattached : s.dispatcher.attached.contains change.id = true
  · simp only [hattached, if_true]
    cases Message.encode change.id encoding s.now change.toNode s.schema with
    | ok m =>
      have h := atRest_give s change.id m
      cases change.isTerminal <;> exact h
    | error e => cases change.isTerminal <;> rfl
  · simp only [hattached]
    rfl

theorem atRest_tell (s : Service) (change : StateChange) (encoding : Encoding) :
    (s.tell change encoding).2.atRest = s.atRest := by
  unfold tell
  by_cases h : s.dispatcher.running = true
  · simp only [h, if_true]
    rw [atRest_deliver]
    rfl
  · simp only [h]
    rfl

@[simp] theorem atRest_emit (s : Service) (sub : Subscription) (change : StateChange) :
    (s.emit sub change).atRest = s.atRest := atRest_tell ..

theorem atRest_replay (s : Service) (id : SubscriptionId) : (s.replay id).atRest = s.atRest := by
  unfold replay
  split
  · rfl
  · rename_i sub _
    split
    · rfl
    · rename_i start _
      split
      · rfl
      · rw [atRest_deliver, atRest_foldl (fun s n => atRest_offer s id sub.stream n)]
        rfl

theorem atRest_attach (s : Service) (id : SubscriptionId) (capacity : Nat) (replace : Bool) :
    (s.attach id capacity replace).2.2.atRest = s.atRest := by
  unfold attach
  simp only
  split
  · simp only
    split
    · rfl
    · rw [atRest_replay]
      rfl
  · rfl

theorem atRest_detach (s : Service) (id : SubscriptionId) : (s.detach id).2.atRest = s.atRest := by
  unfold detach
  split <;> rfl

theorem atRest_listen (s : Service) (id : SubscriptionId) (capacity : Nat) :
    (s.listen id capacity).2.atRest = s.atRest := by
  have h := atRest_attach s id capacity false
  unfold listen
  split
  · rfl
  · split
    · split <;> rename_i heq <;> rw [heq] at h <;> exact h
    · rfl

theorem atRest_receive (s : Service) (l : ListenerId) (max : Nat) : (s.receive l max).2.atRest = s.atRest := by
  unfold receive
  split <;> rfl

theorem atRest_stop (s : Service) : (s.stop.toOption.getD s).atRest = s.atRest := by
  unfold stop
  split <;> rfl

/-- What only carries notifications leaves the rest of a service alone. -/
theorem atRest_step (s : Service) {a : Action} (h : a.carries = true) : (s.step a).atRest = s.atRest := by
  cases a with
  | publish n => rfl
  | dispatch stream => exact atRest_dispatch s stream
  | listen id capacity => exact atRest_listen s id capacity
  | attach id capacity replace => exact atRest_attach s id capacity replace
  | detach id => exact atRest_detach s id
  | receive l max => exact atRest_receive s l max
  | hangUp l => rfl
  | stop => exact atRest_stop s
  | closeFeeds => rfl
  | _ => cases h

theorem records_emit (s : Service) (sub : Subscription) (change : StateChange) :
    (s.emit sub change).records = s.records := records_of_atRest (atRest_emit s sub change)

end Service

end YangSubscriptions
