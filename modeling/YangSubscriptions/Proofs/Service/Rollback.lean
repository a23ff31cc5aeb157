import YangSubscriptions.Proofs.Service.Agreement

/-!
# Ends that are refused

A request to end a subscription whose commit is refused takes the record out and puts it back. Ending
has then already erased why the subscription was suspended, and that is all that is lost
(`answer_refused_end`): the service is as it was exactly if there was no reason, which is so for every
active subscription. A reason that is lost makes a difference later, since only a subscription that is
suspended for want of a filter is resumed when its filter is there again (`refused_kill_keeps_suspended`).
-/

namespace YangSubscriptions

namespace Registry

theorem update_withoutReason_eq_self_iff {r : Registry} {id : SubscriptionId} {s : Subscription}
    (h : r.lookup id = some s) : r.update id Subscription.withoutReason = r ↔ s.suspension = none := by
  constructor
  · intro heq
    have hsame : (r.update id Subscription.withoutReason).lookup id = some s := by rw [heq, h]
    rw [lookup_update, if_pos rfl, h, Option.map_some, Option.some_inj] at hsame
    rw [← hsame]
    rfl
  · intro hnone
    have hsame : s.withoutReason = s := by
      rw [Subscription.withoutReason, ← hnone]
    unfold update
    rw [Table.modify_eq_insert _ h, hsame, Table.insert_eq_self h]

end Registry

namespace Service

/-- Does the request ask to end that subscription, and may the session ask for it? -/
def MayEnd (session : Session) (r : Request) (sub : Subscription) : Prop :=
  r = .kill sub.id ∨ (r = .delete sub.id ∧ session.id = sub.session.id)

theorem answer_of_mayEnd {s : Service} {session : Session} {r : Request} {sub : Subscription}
    (hfound : s.registry.lookup sub.id = some sub) (hr : MayEnd session r sub) :
    ∃ reason, s.answer session r =
      ((s.terminate sub reason).1.map (fun _ => none), (s.terminate sub reason).2) := by
  rcases hr with rfl | ⟨rfl, hsession⟩
  · refine ⟨.killed, ?_⟩
    simp only [answer, kill, hfound]
  · refine ⟨.noSuchSubscription, ?_⟩
    have hsame : sub.session.same session = true := by
      rw [Session.same, decide_eq_true_eq]
      exact hsession.symm
    simp only [answer, delete, hfound, hsame, if_true]

/-- What a refused end comes to. -/
theorem terminate_of_refusing {s : Service} (hwf : s.registry.WF) (hrefusing : s.datastore.refusing = true)
    {sub : Subscription} (hfound : s.registry.lookup sub.id = some sub) (reason : TerminationReason) :
    s.terminate sub reason =
      (.error (.operationFailed Datastore.refusal.message),
        { s with registry := s.registry.update sub.id Subscription.withoutReason }) := by
  rw [terminate_eq hfound, if_pos (hwf.sound _ sub hfound).live, if_pos hrefusing,
    Registry.reinstate_ended hfound (hwf.indexed _ sub hfound)]

/-- While commits are refused, a request to end a subscription fails, and it changes nothing exactly if
the subscription has no reason to be suspended; an active one has none. -/
theorem answer_refused_end {s : Service} (hs : s.Reachable) (hrefusing : s.datastore.refusing = true)
    {sub : Subscription} (hfound : s.registry.lookup sub.id = some sub) {session : Session} {r : Request}
    (hr : MayEnd session r sub) :
    (s.answer session r).1 = .error (.operationFailed Datastore.refusal.message) ∧
    (s.answer session r).2 = { s with registry := s.registry.update sub.id Subscription.withoutReason } ∧
    ((s.answer session r).2 = s ↔ sub.suspension = none) ∧
    (sub.state = .active → (s.answer session r).2 = s) := by
  obtain ⟨reason, hanswer⟩ := answer_of_mayEnd hfound hr
  rw [terminate_of_refusing hs.wf hrefusing hfound] at hanswer
  have hsame : (s.answer session r).2 = s ↔ sub.suspension = none := by
    rw [hanswer, ← Registry.update_withoutReason_eq_self_iff hfound]
    constructor
    · intro heq
      exact congrArg Service.registry heq
    · intro heq
      show { s with registry := s.registry.update sub.id Subscription.withoutReason } = s
      rw [heq]
  refine ⟨?_, ?_, hsame, fun hactive => hsame.2 ?_⟩
  · rw [hanswer]
    rfl
  · rw [hanswer]
  · cases hreason : sub.suspension with
    | none => rfl
    | some _ =>
      have hsuspended := (hs.wf.sound _ sub hfound).reason (by rw [hreason]; rfl)
      rw [hactive] at hsuspended
      cases hsuspended

/-- A subscription that waits for its filter, which was removed. -/
def waitingForFilter : List Action :=
  [.putFilter "alarms" (.subtree ⟨[]⟩),
    .request ⟨1, "", none⟩ (.establish ⟨some netconfStream, some (.named "alarms"), none, none, none⟩),
    .removeFilter "alarms",
    .refuse true]

/-- It is there and suspended, and forgets why when somebody fails to end it. -/
theorem answer_refused_end_waitingForFilter :
    let s := (start ⟨0, 0⟩ .empty []).run waitingForFilter
    ∃ sub, s.registry.lookup firstSubscriptionId = some sub ∧ sub.suspension = some .filterUnavailable ∧
      (s.answer ⟨2, "", none⟩ (.kill firstSubscriptionId)).2 ≠ s := by
  intro s
  let sub : Subscription :=
    ⟨firstSubscriptionId, netconfStream, some (.named "alarms"), .subtree ⟨[]⟩, .json, none, none, ⟨1, "", none⟩,
      .suspended, some .filterUnavailable⟩
  have hfound : s.registry.lookup sub.id = some sub := by rfl
  have hrefused := answer_refused_end ⟨⟨0, 0⟩, .empty, [], waitingForFilter, rfl⟩ (by decide +kernel) hfound
    (.inl rfl : MayEnd ⟨2, "", none⟩ (.kill firstSubscriptionId) sub)
  refine ⟨sub, hfound, rfl, fun heq => ?_⟩
  cases hrefused.2.2.1.1 heq

/-- Once the filter is there again it resumes the subscription, unless somebody tried to end it. -/
theorem refused_kill_keeps_suspended :
    let s := (start ⟨0, 0⟩ .empty []).run waitingForFilter
    let restored : List Action := [.refuse false, .putFilter "alarms" (.subtree ⟨[]⟩)]
    ((s.run restored).registry.lookup firstSubscriptionId).map (·.state) = some .active ∧
      ((s.run (.request ⟨2, "", none⟩ (.kill firstSubscriptionId) :: restored)).registry.lookup
        firstSubscriptionId).map (·.state) = some .suspended := by
  decide +kernel

end Service

end YangSubscriptions
