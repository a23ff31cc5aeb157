import YangSubscriptions.Proofs.Datastore
import YangSubscriptions.Proofs.Except
import YangSubscriptions.Proofs.Service.Run
import YangSubscriptions.Proofs.Subscription.Registry

/-!
# Outcomes of operations

Everything that establishing, modifying and ending a subscription can come to, guards and answers
included, with the checks and the commits already decided. An operation that is refused before its
commit leaves the service as it was; a refused commit leaves it so too, with two exceptions that stand
in the statements: an establish request has used up an id, and a termination has lost the reason of a
suspension.
-/

namespace YangSubscriptions

/-- A retirement finds a record, and it leaves the tallies and the counter alone. -/
theorem Registry.retire_eq_ok {r r' : Registry} {id : SubscriptionId} {s : Subscription} {previous : SubscriptionState}
    (h : r.retire id = .ok (s, previous, r')) : (r.lookup id).isSome = true ∧ r'.tallies = r.tallies ∧
      r'.nextId = r.nextId := by
  obtain ⟨⟨_, moved⟩, hmove, h⟩ := exists_ok_of_bind h
  obtain ⟨found, hfound, -, -, rfl⟩ := transition_eq_ok.1 hmove
  obtain ⟨⟨_, left⟩, hdelete, h⟩ := exists_ok_of_bind h
  unfold delete at hdelete
  split at hdelete
  · cases hdelete
    cases h
    exact ⟨Option.isSome_iff_exists.2 ⟨found, hfound⟩, rfl, rfl⟩
  · cases hdelete

/-- Does it change the named filters or the schema, or resolve filters again? -/
def Action.revises : Action → Bool
  | putFilter _ _ | removeFilter _ | setSchema _ _ | revalidate => true
  | _ => false

namespace Service

/-- The deadlines after a stop-time was given to a subscription, if one was. -/
def scheduled (deadlines : Table SubscriptionId Instant) (id : SubscriptionId) :
    Option Instant → Table SubscriptionId Instant
  | some t => deadlines.insert id t
  | none => deadlines

/-! ## Establishing -/

/-- What is to be created for an establish request holds what its filter resolves to. -/
theorem resolve_of_checkEstablish {s : Service} {session : Session} {r : EstablishRequest} {request : SubscriptionRequest}
    {revision : Option Instant} (h : s.checkEstablish session r = .ok (request, revision)) :
    s.streams.resolve s.schema request.filter = .ok request.resolved := by
  unfold checkEstablish at h
  split at h
  · cases h
  · rename_i stream _
    by_cases hstream : s.streams.contains stream = true
    · simp only [hstream, Bool.not_true, Bool.false_eq_true, if_false] at h
      obtain ⟨resolved, hresolved, h⟩ := exists_ok_of_bind h
      obtain ⟨_, -, h⟩ := exists_ok_of_bind h
      cases h
      exact hresolved
    · simp only [hstream] at h
      cases h

/-- The service once a new subscription is committed, and before it is told. -/
def established (s : Service) (sub : Subscription) : Service :=
  { s with
    registry := { s.registry.enter sub with
      nextId := s.registry.nextId + 1, tallies := s.registry.tallies.insert s.registry.nextId ⟨0, 0⟩ }
    datastore := s.datastore.apply (.put (.subscription sub.id) sub.toJson)
    deadlines := scheduled s.deadlines sub.id sub.stopTime }

/-- The service once an id was given to a subscription that did not come to be. -/
def skipped (s : Service) : Service :=
  { s with registry := { s.registry with
      nextId := s.registry.nextId + 1, tallies := s.registry.tallies.insert s.registry.nextId ⟨0, 0⟩ } }

/-- The service once the commit of a new subscription was refused. -/
def unestablished (s : Service) (sub : Subscription) : Service :=
  { s with
    registry := { (s.registry.enter sub).leave sub with
      nextId := s.registry.nextId + 1, tallies := s.registry.tallies.insert s.registry.nextId ⟨0, 0⟩ } }

theorem establish_cases (s : Service) (session : Session) (r : EstablishRequest) :
    (∃ e, s.establish session r = (.error e, s)) ∨
    ∃ request revision, s.checkEstablish session r = .ok (request, revision) ∧
      let sub := Subscription.launched s.registry.nextId request
      (s.datastore.refusing = true ∧
        s.establish session r = (.error (.operationFailed Datastore.refusal.message), s.unestablished sub)) ∨
      (s.datastore.refusing = false ∧
        s.establish session r = (.ok ⟨sub.id, revision⟩, (s.established sub).emit sub (.started sub.terms))) := by
  unfold establish
  cases hcheck : s.checkEstablish session r with
  | error e => exact .inl ⟨e, rfl⟩
  | ok checked =>
    obtain ⟨request, revision⟩ := checked
    simp only [Registry.launch_eq]
    by_cases hstream : s.streams.contains request.stream = true
    · simp only [hstream, if_true]
      refine .inr ⟨request, revision, rfl, ?_⟩
      cases hrefusing : s.datastore.refusing with
      | true =>
        simp only [Datastore.commit_of_refusing hrefusing]
        exact .inl ⟨trivial, rfl⟩
      | false =>
        simp only [Datastore.commit_of_accepting hrefusing]
        exact .inr ⟨trivial, rfl⟩
    · simp only [hstream]
      exact .inl ⟨_, rfl⟩

/-! ## Modifying -/

/-- The checks find the record of the session's own subscription, and what a new filter resolves to. -/
theorem checkModify_eq_ok {s : Service} {session : Session} {r : ModifyRequest} {current : Subscription}
    {resolved : Option ResolvedFilter} (h : s.checkModify session r = .ok (current, resolved)) :
    s.registry.lookup r.id = some current ∧ current.session.id = session.id ∧ current.state.isLive = true ∧
      ((r.filter = none ∧ resolved = none) ∨
        ∃ f new, r.filter = some f ∧ resolved = some new ∧ s.streams.resolve s.schema (some f) = .ok new) := by
  unfold checkModify at h
  split at h
  · cases h
  · rename_i sub hsub
    by_cases hsame : sub.session.same session = true
    · by_cases hlive : sub.state.isLive = true
      · simp only [hsame, hlive, Bool.not_true, Bool.false_eq_true, if_false] at h
        have hparts : sub = current ∧ ((r.filter = none ∧ resolved = none) ∨
            ∃ f new, r.filter = some f ∧ resolved = some new ∧ s.streams.resolve s.schema (some f) = .ok new) := by
          split at h
          · rename_i f hfilter
            obtain ⟨_, hfound, h⟩ := exists_ok_of_bind h
            obtain ⟨new, hnew, rfl⟩ := exists_ok_of_map hfound
            split at h
            · cases h
            · cases h
              exact ⟨rfl, .inr ⟨f, new, hfilter, rfl, hnew⟩⟩
          · rename_i hfilter
            obtain ⟨_, hfound, h⟩ := exists_ok_of_bind h
            cases hfound
            split at h
            · cases h
            · cases h
              exact ⟨rfl, .inl ⟨hfilter, rfl⟩⟩
        obtain ⟨rfl, hresolved⟩ := hparts
        exact ⟨hsub, by simpa only [Session.same, decide_eq_true_eq] using hsame, hlive, hresolved⟩
      · simp only [hsame, hlive] at h
        cases h
    · simp only [hsame] at h
      cases h

/-- The service once a changed record is committed and told. -/
def modified (s : Service) (r : ModifyRequest) (resolved : Option ResolvedFilter) (current : Subscription) : Service :=
  let updated := r.change resolved current
  { s with
    registry := s.registry.update r.id (r.change resolved)
    datastore := s.datastore.apply (.put (.subscription r.id) updated.toJson)
    deadlines := scheduled s.deadlines r.id r.stopTime }.emit updated (.modified updated.terms)

theorem modify_cases (s : Service) (session : Session) (r : ModifyRequest) :
    (∃ e, s.modify session r = (.error e, s)) ∨
    ∃ current resolved, s.checkModify session r = .ok (current, resolved) ∧
      let updated := r.change resolved current
      let t := s.modified r resolved current
      s.datastore.refusing = false ∧
        s.modify session r =
          (.ok (),
            if r.filter.isSome && updated.suspension = some .filterUnavailable then t.resume updated else t) := by
  unfold modify
  cases hcheck : s.checkModify session r with
  | error e => exact .inl ⟨e, rfl⟩
  | ok checked =>
    obtain ⟨current, resolved⟩ := checked
    obtain ⟨hfound, -, -⟩ := checkModify_eq_ok hcheck
    cases hrefusing : s.datastore.refusing with
    | true =>
      have hback : (s.registry.update r.id (r.change resolved)).update r.id current.restore = s.registry := by
        unfold Registry.update
        congr 1
        refine Table.ext fun k => ?_
        simp only [Table.get?_modify]
        split
        · rename_i hk
          rw [← hk, show s.registry.subscriptions.get? r.id = some current from hfound]
          rfl
        · rfl
      simp only [Datastore.commit_of_refusing hrefusing, hback]
      exact .inl ⟨_, rfl⟩
    | false =>
      simp only [Datastore.commit_of_accepting hrefusing]
      exact .inr ⟨current, resolved, rfl, trivial, rfl⟩

/-! ## Ending -/

/-- The service once the end of a subscription is committed, and before it is told. -/
def terminated (s : Service) (sub : Subscription) : Service :=
  { s with
    registry := s.registry.leave sub
    datastore := s.datastore.apply (.delete (.subscription sub.id))
    deadlines := s.deadlines.erase sub.id }

theorem terminate_eq {s : Service} {sub : Subscription} (hfound : s.registry.lookup sub.id = some sub)
    (reason : TerminationReason) :
    s.terminate sub reason =
      if sub.state.isLive then
        if s.datastore.refusing then
          (.error (.operationFailed Datastore.refusal.message),
            { s with registry := (s.registry.leave sub).reinstate sub.ended sub.state })
        else (.ok (), (s.terminated sub).emit sub.ended (.terminated sub.id reason))
      else (.error (.notActive sub.id), s) := by
  unfold terminate
  by_cases hlive : sub.state.isLive = true
  · have hretire := Registry.retire_eq hfound rfl
    rw [if_pos (SubscriptionState.canMoveTo_ended hlive)] at hretire
    simp only [hlive, if_true, hretire]
    cases hrefusing : s.datastore.refusing with
    | true =>
      simp only [Datastore.commit_of_refusing hrefusing]
      rfl
    | false =>
      simp only [Datastore.commit_of_accepting hrefusing]
      rfl
  · simp only [hlive]
    rfl

/-- Only the session itself deletes its subscriptions. -/
theorem delete_cases (s : Service) (session : Session) (id : SubscriptionId) :
    (∃ e, s.delete session id = (.error e, s)) ∨
    ∃ sub, s.registry.lookup id = some sub ∧ sub.session.id = session.id ∧
      s.delete session id = s.terminate sub .noSuchSubscription := by
  unfold delete
  split
  · exact .inl ⟨_, rfl⟩
  · rename_i sub hfound
    split
    · rename_i hsame
      exact .inr ⟨sub, hfound, by simpa only [Session.same, decide_eq_true_eq] using hsame, rfl⟩
    · exact .inl ⟨_, rfl⟩

theorem kill_cases (s : Service) (id : SubscriptionId) :
    (∃ e, s.kill id = (.error e, s)) ∨
    ∃ sub, s.registry.lookup id = some sub ∧ s.kill id = s.terminate sub .killed := by
  unfold kill
  split
  · exact .inl ⟨_, rfl⟩
  · rename_i sub hfound
    exact .inr ⟨sub, hfound, rfl⟩

theorem complete_eq {s : Service} {sub : Subscription} (hfound : s.registry.lookup sub.id = some sub)
    (hlive : sub.state.isLive = true) :
    s.complete sub.id =
      { s with
        registry := s.registry.leave sub
        datastore := s.datastore.commitOrKeep [.delete (.subscription sub.id)]
        deadlines := s.deadlines.erase sub.id }.emit sub.ended (.completed sub.id) := by
  have hretire := Registry.retire_eq hfound rfl
  rw [if_pos (SubscriptionState.canMoveTo_ended hlive)] at hretire
  simp only [complete, hretire]

theorem complete_of_lookup_none {s : Service} {id : SubscriptionId} (h : s.registry.lookup id = none) :
    s.complete id = { s with deadlines := s.deadlines.erase id } := by
  simp only [complete, Registry.retire_of_lookup_none h]

theorem drop_eq {s : Service} {id : SubscriptionId} {sub : Subscription} (h : s.registry.lookup id = some sub) :
    s.drop id = ({ s with registry := s.registry.leave sub, deadlines := s.deadlines.erase id }.detach id).2 := by
  simp only [drop, Registry.delete, h]

theorem drop_of_lookup_none {s : Service} {id : SubscriptionId} (h : s.registry.lookup id = none) : s.drop id = s := by
  simp only [drop, Registry.delete, h]

/-- What every drop preserves is preserved when a session closes and all of its subscriptions are dropped. -/
theorem foldl_drop_preserves {I : Service → Prop} (hdrop : ∀ s id, I s → I (s.drop id)) (ids : List SubscriptionId)
    {s : Service} (hs : I s) : I (ids.foldl drop s) :=
  List.foldlRecOn (motive := I) ids drop hs fun t ht id _ => hdrop t id ht

/-! ## Filters and schemas -/

theorem streams_putFilter {streams streams' : Streams} {schema : Schema} {name : String} {filter : StreamFilter}
    {isNew : Bool} (h : streams.putFilter schema name filter = .ok (isNew, streams')) :
    streams'.streams = streams.streams := by
  unfold Streams.putFilter at h
  split at h
  · cases h
  · cases hresolve : streams.resolve schema (some filter) with
    | error e => simp [hresolve, bind, Except.bind] at h
    | ok resolved =>
      simp only [hresolve, bind, Except.bind, Except.ok.injEq, Prod.mk.injEq] at h
      rw [← h.2]

theorem streams_removeFilter {streams streams' : Streams} {name : String}
    (h : streams.removeFilter name = some streams') : streams'.streams = streams.streams := by
  unfold Streams.removeFilter at h
  split at h
  · cases h
    rfl
  · cases h

/-- Whatever it changes of filters and schema, nothing else changes but by a revalidation. -/
theorem step_of_revises (s : Service) {a : Action} (ha : a.revises = true) :
    ∃ streams schema, streams.streams = s.streams.streams ∧
      (s.step a = { s with streams, schema } ∨ s.step a = { s with streams, schema }.revalidate) := by
  cases a with
  | putFilter name filter =>
    unfold step putFilter
    simp only
    split
    · rename_i streams hput
      exact ⟨streams, s.schema, streams_putFilter hput, .inr rfl⟩
    · exact ⟨s.streams, s.schema, rfl, .inl rfl⟩
  | removeFilter name =>
    unfold step removeFilter
    simp only
    split
    · rename_i streams hremove
      exact ⟨streams, s.schema, streams_removeFilter hremove, .inr rfl⟩
    · exact ⟨s.streams, s.schema, rfl, .inl rfl⟩
  | setSchema schema watching =>
    cases watching with
    | true => exact ⟨s.streams, schema, rfl, .inr rfl⟩
    | false => exact ⟨s.streams, schema, rfl, .inl rfl⟩
  | revalidate => exact ⟨s.streams, s.schema, rfl, .inr rfl⟩
  | _ => cases ha

end Service

end YangSubscriptions
