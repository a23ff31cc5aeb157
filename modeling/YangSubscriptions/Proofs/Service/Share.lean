import YangSubscriptions.Proofs.Delivery.Walk
import YangSubscriptions.Proofs.Subscription.Holding

/-!
# What a service holds for one subscription

All that decides what a service does for a subscription: what everybody shares, that is the clock, the schema, the
streams and the feeds, and of the rest the subscription's own part. Two services are `Alike` for it if these
are equal. An operation on the subscription keeps them alike when it is carried out in both, and an operation on any
other in one of them alone; this module proves it of deliveries and of everything that is made of them.
-/

namespace YangSubscriptions

/-- What is everybody's, and a subscription's own part of the rest. -/
structure Share where
  now : Instant
  schema : Schema
  streams : Streams
  router : Router
  refusing : Bool
  deadline : Option Instant
  holding : Holding
  desk : Desk

namespace Service

open Dispatcher (Roster)

/-- What the service holds for a subscription whose listeners are these. -/
def share (A : SubscriptionId) (own : List ListenerId) (s : Service) : Share :=
  ⟨s.now, s.schema, s.streams, s.router, s.datastore.refusing, s.deadlines.get? A, s.registry.holding A,
    s.dispatcher.desk A own⟩

/-- Services that hold the same for a subscription, whose listeners they may number differently. -/
structure Alike (A : SubscriptionId) (own own' : List ListenerId) (s t : Service) : Prop where
  left : Roster A own s.dispatcher
  right : Roster A own' t.dispatcher
  share : s.share A own = t.share A own'

variable {A k : SubscriptionId} {own own' own'' : List ListenerId} {s t u : Service}

namespace Alike

theorem refl (h : Roster A own s.dispatcher) : Alike A own own s s := ⟨h, h, rfl⟩

/-- Being alike for a subscription is the same from either side. -/
theorem symm (h : Alike A own own' s t) : Alike A own' own t s := ⟨h.right, h.left, h.share.symm⟩

/-- It carries over from one pair of states to the next. -/
theorem trans (h : Alike A own own' s t) (h' : Alike A own' own'' t u) : Alike A own own'' s u :=
  ⟨h.left, h'.right, h.share.trans h'.share⟩

section
variable (h : Alike A own own' s t)
include h

theorem now : s.now = t.now := congrArg Share.now h.share

theorem schema : s.schema = t.schema := congrArg Share.schema h.share

theorem streams : s.streams = t.streams := congrArg Share.streams h.share

theorem router : s.router = t.router := congrArg Share.router h.share

theorem refusing : s.datastore.refusing = t.datastore.refusing := congrArg Share.refusing h.share

theorem deadline : s.deadlines.get? A = t.deadlines.get? A := congrArg Share.deadline h.share

theorem holding : s.registry.holding A = t.registry.holding A := congrArg Share.holding h.share

theorem desk : s.dispatcher.desk A own = t.dispatcher.desk A own' := congrArg Share.desk h.share

theorem lookup : s.registry.lookup A = t.registry.lookup A := congrArg Holding.record h.holding

theorem running : s.dispatcher.running = t.dispatcher.running := congrArg Desk.running h.desk

theorem replayed : s.dispatcher.replayed.contains A = t.dispatcher.replayed.contains A := congrArg Desk.replayed h.desk

theorem contains : s.dispatcher.attached.contains A = t.dispatcher.attached.contains A := by
  rw [h.left.contains_eq, h.right.contains_eq, h.desk]

theorem hasOpenListener : s.dispatcher.hasOpenListener A = t.dispatcher.hasOpenListener A := by
  rw [h.left.hasOpenListener_eq, h.right.hasOpenListener_eq, h.desk]

theorem isSome_push? (m : Message) : (s.dispatcher.push? A m).isSome = (t.dispatcher.push? A m).isSome := by
  rw [h.left.isSome_push?, h.right.isSome_push?, h.desk]

theorem verdict (stream : String) (n : Notification) : s.verdict A stream n = t.verdict A stream n := by
  unfold Service.verdict
  rw [h.lookup, h.schema]

/-- Changes of records, deadlines and the datastore that come to the same for the subscription. -/
theorem change {registry registry' : Registry} {datastore datastore' : Datastore}
    {deadlines deadlines' : Table SubscriptionId Instant} (hholding : registry.holding A = registry'.holding A)
    (hrefusing : datastore.refusing = datastore'.refusing) (hdeadline : deadlines.get? A = deadlines'.get? A) :
    Alike A own own' { s with registry, datastore, deadlines }
      { t with registry := registry', datastore := datastore', deadlines := deadlines' } := by
  refine ⟨h.left, h.right, ?_⟩
  show { s.share A own with
    refusing := datastore.refusing, deadline := deadlines.get? A, holding := registry.holding A } =
      { t.share A own' with
        refusing := datastore'.refusing, deadline := deadlines'.get? A, holding := registry'.holding A }
  rw [h.share, hholding, hrefusing, hdeadline]

/-- Changes of the registry alone. -/
theorem register {registry registry' : Registry} (hholding : registry.holding A = registry'.holding A) :
    Alike A own own' { s with registry } { t with registry := registry' } :=
  h.change hholding h.refusing h.deadline

omit h in
/-- Changes of the dispatcher, and of the registry with it. -/
theorem rewire {own₁ own₁' : List ListenerId} (h : Alike A own own' s t) {d d' : Dispatcher}
    {registry registry' : Registry} (hleft : Roster A own₁ d) (hright : Roster A own₁' d')
    (hdesk : d.desk A own₁ = d'.desk A own₁') (hholding : registry.holding A = registry'.holding A) :
    Alike A own₁ own₁' { s with dispatcher := d, registry } { t with dispatcher := d', registry := registry' } := by
  refine ⟨hleft, hright, ?_⟩
  show { s.share A own with holding := registry.holding A, desk := d.desk A own₁ } =
    { t.share A own' with holding := registry'.holding A, desk := d'.desk A own₁' }
  rw [h.share, hholding, hdesk]

end

end Alike

/-- Changes that are nothing to the subscription. -/
theorem alike_change (h : Roster A own s.dispatcher) {registry : Registry} {datastore : Datastore}
    {deadlines : Table SubscriptionId Instant} (hholding : registry.holding A = s.registry.holding A)
    (hrefusing : datastore.refusing = s.datastore.refusing) (hdeadline : deadlines.get? A = s.deadlines.get? A) :
    Alike A own own s { s with registry, datastore, deadlines } :=
  (Alike.refl h).change hholding.symm hrefusing.symm hdeadline.symm

theorem alike_register (h : Roster A own s.dispatcher) {registry : Registry}
    (hholding : registry.holding A = s.registry.holding A) : Alike A own own s { s with registry } :=
  alike_change h hholding rfl rfl

/-! ## Giving -/

/-- A message for the subscription is taken in both, or in neither. -/
theorem Alike.give (h : Alike A own own' s t) (m : Message) : Alike A own own' (s.give A m).2 (t.give A m).2 := by
  rw [give_eq, give_eq, h.isSome_push? m]
  refine h.rewire (h.left.give A m) (h.right.give A m) ?_ ?_
  · rw [h.left.desk_give, h.right.desk_give, h.desk]
  · split
    · rw [Registry.holding_countSent, Registry.holding_countSent, h.holding]
    · exact h.holding

/-- A message for another one changes nothing for it. -/
theorem alike_give (h : Roster A own s.dispatcher) (hk : k ≠ A) (m : Message) : Alike A own own s (s.give k m).2 := by
  rw [give_eq]
  refine (Alike.refl h).rewire h (h.give k m) ?_ ?_
  · rw [h.desk_give, if_neg hk]
  · split
    · rw [Registry.holding_countSent, if_neg hk]
    · rfl

theorem Alike.forget (h : Alike A own own' s t) :
    Alike A own own' { s with dispatcher := s.dispatcher.forget A } { t with dispatcher := t.dispatcher.forget A } :=
  h.rewire (h.left.forget A) (h.right.forget A) (by rw [h.left.desk_forget, h.right.desk_forget, h.desk]) h.holding

theorem alike_forget (h : Roster A own s.dispatcher) (hk : k ≠ A) :
    Alike A own own s { s with dispatcher := s.dispatcher.forget k } :=
  (Alike.refl h).rewire h (h.forget k) (by rw [h.desk_forget, if_neg hk]) rfl

/-! ## State changes -/

theorem deliver_eq (s : Service) (change : StateChange) (encoding : Encoding) :
    (s.deliver change encoding).2 =
      if s.dispatcher.attached.contains change.id then
        let told := match Message.encode change.id encoding s.now change.toNode s.schema with
          | .ok m => (s.give change.id m).2
          | .error _ => s
        if change.isTerminal then { told with dispatcher := told.dispatcher.forget change.id } else told
      else s := by
  unfold deliver
  split
  · cases Message.encode change.id encoding s.now change.toNode s.schema <;> rfl
  · rfl

theorem Alike.deliver (h : Alike A own own' s t) {change : StateChange} (hid : change.id = A) (encoding : Encoding) :
    Alike A own own' (s.deliver change encoding).2 (t.deliver change encoding).2 := by
  rw [deliver_eq, deliver_eq, hid, h.contains, h.now, h.schema]
  have htold : Alike A own own'
      (match Message.encode A encoding t.now change.toNode t.schema with
        | .ok m => (s.give A m).2
        | .error _ => s)
      (match Message.encode A encoding t.now change.toNode t.schema with
        | .ok m => (t.give A m).2
        | .error _ => t) := by
    split
    · exact h.give _
    · exact h
  split
  · simp only
    split
    · exact htold.forget
    · exact htold
  · exact h

/-- Nor does a state change of another one. -/
theorem alike_deliver (h : Roster A own s.dispatcher) {change : StateChange} (hid : change.id ≠ A)
    (encoding : Encoding) : Alike A own own s (s.deliver change encoding).2 := by
  rw [deliver_eq]
  have htold : Alike A own own s
      (match Message.encode change.id encoding s.now change.toNode s.schema with
        | .ok m => (s.give change.id m).2
        | .error _ => s) := by
    split
    · exact alike_give h hid _
    · exact .refl h
  split
  · simp only
    split
    · exact htold.trans (alike_forget htold.right hid)
    · exact htold
  · exact .refl h

/-- What was told is not held for anyone. -/
theorem alike_journal (h : Roster A own s.dispatcher) (journal : List StateChange) :
    Alike A own own s { s with journal } := ⟨h, h, rfl⟩

theorem Alike.emit (h : Alike A own own' s t) (sub : Subscription) {change : StateChange} (hid : change.id = A) :
    Alike A own own' (s.emit sub change) (t.emit sub change) := by
  have hnoted := (alike_journal h.left (s.journal ++ [change])).symm.trans
    (h.trans (alike_journal h.right (t.journal ++ [change])))
  rw [emit_eq, emit_eq, h.running]
  simp only
  split
  · exact hnoted.deliver hid sub.encoding
  · exact hnoted

theorem alike_emit (h : Roster A own s.dispatcher) (sub : Subscription) {change : StateChange} (hid : change.id ≠ A) :
    Alike A own own s (s.emit sub change) := by
  have hnoted := alike_journal h (s.journal ++ [change])
  rw [emit_eq]
  simp only
  split
  · exact hnoted.trans (alike_deliver hnoted.right hid sub.encoding)
  · exact hnoted

theorem Alike.detach (h : Alike A own own' s t) : Alike A own own' (s.detach A).2 (t.detach A).2 := by
  unfold Service.detach
  rw [h.running]
  split
  · exact h.forget
  · exact h

theorem alike_detach (h : Roster A own s.dispatcher) (hk : k ≠ A) : Alike A own own s (s.detach k).2 := by
  unfold Service.detach
  split
  · exact alike_forget h hk
  · exact .refl h

/-! ## Offers -/

theorem Alike.offer (h : Alike A own own' s t) (stream : String) (n : Notification) :
    Alike A own own' (s.offer A stream n) (t.offer A stream n) := by
  unfold Service.offer
  rw [h.verdict]
  split
  · exact h
  · exact h
  · refine h.register ?_
    rw [Registry.holding_countExcluded, Registry.holding_countExcluded, h.holding]
  · exact h.give _

theorem alike_offer (h : Roster A own s.dispatcher) (hk : k ≠ A) (stream : String) (n : Notification) :
    Alike A own own s (s.offer k stream n) := by
  unfold offer
  split
  · exact .refl h
  · exact .refl h
  · exact alike_register h (by rw [Registry.holding_countExcluded, if_neg hk])
  · exact alike_give h hk _

/-! ## Rounds over several subscriptions -/

section
variable {f : Service → SubscriptionId → Service} {P : Service → Prop}
  (hkeeps : ∀ s k, P s → P (f s k))
  (hown : ∀ {own own' s t}, Alike A own own' s t → P s → P t → Alike A own own' (f s A) (f t A))
  (hother : ∀ {own s k}, Roster A own s.dispatcher → P s → k ≠ A → Alike A own own s (f s k))
include hkeeps hown hother

/-- All that a round does for a subscription is to come to it. -/
theorem alike_foldl {ids : List SubscriptionId} (hnodup : ids.Nodup) (h : Roster A own s.dispatcher) (hs : P s) :
    Alike A own own (if A ∈ ids then f s A else s) (ids.foldl f s) := by
  induction ids generalizing s with
  | nil => exact .refl h
  | cons k ids ih =>
    obtain ⟨hnotin, hnodup⟩ := List.nodup_cons.1 hnodup
    by_cases hk : k = A
    · -- the rest of the round is about others
      subst hk
      have hcome := (hown (.refl h) hs hs).left
      have hrest := ih hnodup hcome (hkeeps s k hs)
      rw [if_neg hnotin] at hrest
      rw [if_pos List.mem_cons_self]
      exact hrest
    · have hpass := hother h hs hk
      have hrest := ih hnodup hpass.right (hkeeps s k hs)
      simp only [List.mem_cons, Ne.symm hk, false_or]
      by_cases hmem : A ∈ ids
      · rw [if_pos hmem] at hrest ⊢
        exact (hown hpass hs (hkeeps s k hs)).trans hrest
      · rw [if_neg hmem] at hrest ⊢
        exact hpass.trans hrest

/-- So two rounds that both come to it, or both do not, keep services alike, whatever else they come to and in
whatever order. -/
theorem Alike.foldl (h : Alike A own own' s t) {ids ids' : List SubscriptionId} (hnodup : ids.Nodup)
    (hnodup' : ids'.Nodup) (hmem : A ∈ ids ↔ A ∈ ids') (hs : P s) (ht : P t) :
    Alike A own own' (ids.foldl f s) (ids'.foldl f t) := by
  have hleft := alike_foldl hkeeps hown hother hnodup h.left hs
  have hright := alike_foldl hkeeps hown hother hnodup' h.right ht
  refine (hleft.symm.trans ?_).trans hright
  by_cases hA : A ∈ ids
  · rw [if_pos hA, if_pos (hmem.1 hA)]
    exact hown h hs ht
  · rw [if_neg hA, if_neg (mt hmem.2 hA)]
    exact h

end

/-! ## Feeds -/

/-- A notification that both feeds yield is offered to it in both, in whatever order the others are served. -/
theorem Alike.dispatch (h : Alike A own own' s t) (stream : String) :
    Alike A own own' (s.dispatch stream) (t.dispatch stream) := by
  rw [dispatch_eq, dispatch_eq, h.router]
  split
  · rename_i n _
    have hrecorded : Alike A own own' (s.recorded stream n) (t.recorded stream n) := by
      refine ⟨h.left.dropClosed, h.right.dropClosed, ?_⟩
      show { s.share A own with
        router := s.router.shift stream
        streams := s.streams.record stream n
        desk := s.dispatcher.dropClosed.desk A own } =
          { t.share A own' with
            router := t.router.shift stream
            streams := t.streams.record stream n
            desk := t.dispatcher.dropClosed.desk A own' }
      rw [h.share, h.router, h.streams, Dispatcher.desk_dropClosed, Dispatcher.desk_dropClosed, h.desk]
    refine hrecorded.foldl (f := fun s id => s.offer id stream n) (P := fun _ => True) (fun _ _ _ => trivial)
      (fun h _ _ => h.offer stream n) (fun h _ hk => alike_offer h hk stream n) (Table.keys_nodup _)
      (Table.keys_nodup _) ?_ trivial trivial
    rw [mem_keys_dropClosed, mem_keys_dropClosed, h.hasOpenListener]
  · exact h

/-! ## Replay -/

theorem Alike.foldl_offer (h : Alike A own own' s t) (stream : String) (events : List Notification) :
    Alike A own own' (events.foldl (fun s n => s.offer A stream n) s)
      (events.foldl (fun s n => s.offer A stream n) t) := by
  induction events generalizing s t with
  | nil => exact h
  | cons n events ih => exact ih (h.offer stream n)

theorem alike_foldl_offer (h : Roster A own s.dispatcher) (hk : k ≠ A) (stream : String) (events : List Notification) :
    Alike A own own s (events.foldl (fun s n => s.offer k stream n) s) := by
  induction events generalizing s with
  | nil => exact .refl h
  | cons n events ih =>
    have hoffered := alike_offer h hk stream n
    exact hoffered.trans (ih hoffered.right)

/-- The service once a replay is marked as delivered. -/
def marked (s : Service) (k : SubscriptionId) : Service :=
  { s with dispatcher := { s.dispatcher with replayed := s.dispatcher.replayed.insert k () } }

theorem roster_marked (h : Roster A own s.dispatcher) (k : SubscriptionId) : Roster A own (s.marked k).dispatcher :=
  ⟨h.sound.of_attached rfl (fun _ _ hid => hid) rfl, h.nodup, h.known, h.only, h.seated⟩

/-- Its replay is the same in both. -/
theorem Alike.replay (h : Alike A own own' s t) : Alike A own own' (s.replay A) (t.replay A) := by
  have hmarked : Alike A own own' (s.marked A) (t.marked A) := by
    refine h.rewire (roster_marked h.left A) (roster_marked h.right A) ?_ h.holding
    rw [Dispatcher.desk_replayed, Dispatcher.desk_replayed, h.desk]
  unfold Service.replay
  rw [h.lookup, h.replayed]
  split
  · exact h
  · rename_i sub _
    split
    · exact h
    · rename_i start _
      split
      · exact h
      · have hdone : (StateChange.replayCompleted A).id = A := rfl
        have hevents : s.streams.replay = t.streams.replay := congrArg Streams.replay h.streams
        simp only [hevents]
        exact (hmarked.foldl_offer sub.stream _).deliver hdone sub.encoding

theorem alike_replay (h : Roster A own s.dispatcher) (hk : k ≠ A) : Alike A own own s (s.replay k) := by
  have hmarked : Alike A own own s (s.marked k) := by
    refine (Alike.refl h).rewire h (roster_marked h k) ?_ rfl
    rw [Dispatcher.desk_replayed, if_neg hk]
  rcases s.replay_cases k with ⟨-, he⟩ | ⟨sub, events, -, -, he⟩
  · rw [he]
    exact .refl h
  · have hoffered := hmarked.trans (alike_foldl_offer hmarked.right hk sub.stream events)
    have hdone : (StateChange.replayCompleted k).id ≠ A := hk
    rw [he]
    exact hoffered.trans (alike_deliver hoffered.right hdone sub.encoding)

end Service

end YangSubscriptions
