import YangSubscriptions.Proofs.Delivery.Emission
import YangSubscriptions.Proofs.Service.Agreement
import YangSubscriptions.Proofs.Service.Refusal

/-!
# Sessions apart

What one session asks for does not touch the subscriptions of another (`sessions_apart`). Two guards see to it:
a request to modify or delete compares the session with that of the record, and a session that closes takes along
what the index lists for it, which is exact as long as ids are fresh. What a session is told apart by is its id
and nothing else (`answer_of_same_id`).
-/

namespace YangSubscriptions

namespace Service

/-- The session that a subscription belongs to, if it is registered. -/
def owner? (s : Service) (id : SubscriptionId) : Option SessionId := (s.registry.lookup id).map (·.session.id)

/-- The owner of an id is the session of its record. -/
theorem owner?_eq_some {s : Service} {id : SubscriptionId} {session : SessionId} :
    s.owner? id = some session ↔ ∃ sub, s.registry.lookup id = some sub ∧ sub.session.id = session := by
  rw [owner?, Option.map_eq_some_iff]

/-- Everything there is of a subscription stays as it is, and it is told of nothing. -/
structure Undisturbed (id : SubscriptionId) (s t : Service) : Prop where
  record : t.registry.lookup id = s.registry.lookup id
  tally : t.registry.tally id = s.registry.tally id
  deadline : t.deadlines.get? id = s.deadlines.get? id
  data : t.datastore.read (.subscription id) = s.datastore.read (.subscription id)
  listener : Dispatcher.Same id s.dispatcher t.dispatcher
  history : t.history id = s.history id

/-- The subscriptions of a session are undisturbed, and the index of the session is the same. -/
structure Spares (session : SessionId) (s t : Service) : Prop where
  index : t.registry.sessions.get? session = s.registry.sessions.get? session
  undisturbed : ∀ id, s.owner? id = some session → Undisturbed id s t

/-! ## Changes about other subscriptions -/

section
variable {A : SessionId} {s t : Service}

theorem ne_of_owner? {k id : SubscriptionId} (hk : s.owner? k ≠ some A) (hid : s.owner? id = some A) : k ≠ id := by
  rintro rfl
  exact hk hid

namespace Spares

theorem refl (A : SessionId) (s : Service) : Spares A s s :=
  ⟨rfl, fun id _ => ⟨rfl, rfl, rfl, rfl, .refl id _, rfl⟩⟩

theorem change (h : Spares A s t) {registry : Registry} {datastore : Datastore}
    {deadlines : Table SubscriptionId Instant}
    (index : registry.sessions.get? A = t.registry.sessions.get? A)
    (record : ∀ id, s.owner? id = some A → registry.lookup id = t.registry.lookup id)
    (tally : ∀ id, s.owner? id = some A → registry.tally id = t.registry.tally id)
    (deadline : ∀ id, s.owner? id = some A → deadlines.get? id = t.deadlines.get? id)
    (data : ∀ id, s.owner? id = some A → datastore.read (.subscription id) = t.datastore.read (.subscription id)) :
    Spares A s { t with registry, datastore, deadlines } := by
  refine ⟨index.trans h.index, fun id hid => ?_⟩
  have hundisturbed := h.undisturbed id hid
  exact ⟨(record id hid).trans hundisturbed.record, (tally id hid).trans hundisturbed.tally,
    (deadline id hid).trans hundisturbed.deadline, (data id hid).trans hundisturbed.data, hundisturbed.listener,
    hundisturbed.history⟩

theorem emit (h : Spares A s t) (hsound : t.dispatcher.Sound) (sub : Subscription) {change : StateChange}
    (hk : s.owner? change.id ≠ some A) : Spares A s (t.emit sub change) := by
  have hrecords := records_emit t sub change
  refine ⟨?_, fun id hid => ?_⟩
  · exact (congrArg (fun r : Records => r.registry.sessions.get? A) hrecords).trans h.index
  · have hne := ne_of_owner? hk hid
    have hundisturbed := h.undisturbed id hid
    exact {
      record := (congrArg (fun r : Records => r.registry.lookup id) hrecords).trans hundisturbed.record
      tally := (tally_emit t sub hne).trans hundisturbed.tally
      deadline := (congrArg (fun r : Records => r.deadlines.get? id) hrecords).trans hundisturbed.deadline
      data := (congrArg (fun r : Records => r.datastore.read (.subscription id)) hrecords).trans hundisturbed.data
      listener := hundisturbed.listener.trans (same_emit hsound sub hne)
      history := (history_emit_of_ne t sub hne).trans hundisturbed.history }

theorem detach (h : Spares A s t) (hsound : t.dispatcher.Sound) {k : SubscriptionId} (hk : s.owner? k ≠ some A) :
    Spares A s (t.detach k).2 := by
  have hrest := atRest_detach t k
  have htallies : (t.detach k).2.registry = t.registry := by
    unfold Service.detach
    split <;> rfl
  refine ⟨?_, fun id hid => ?_⟩
  · rw [htallies]
    exact h.index
  · have hundisturbed := h.undisturbed id hid
    exact {
      record := by
        rw [htallies]
        exact hundisturbed.record
      tally := by
        rw [htallies]
        exact hundisturbed.tally
      deadline := (congrArg (fun s : Service => s.deadlines.get? id) hrest).trans hundisturbed.deadline
      data := (congrArg (fun s : Service => s.datastore.read (.subscription id)) hrest).trans hundisturbed.data
      listener := hundisturbed.listener.trans (same_detach hsound (ne_of_owner? hk hid))
      history := (history_of_journal (journal_detach t k) id).trans hundisturbed.history }

theorem resume (h : Spares A s t) (hsound : t.dispatcher.Sound) {sub : Subscription} (hk : s.owner? sub.id ≠ some A) :
    Spares A s (t.resume sub) := by
  unfold Service.resume
  split
  · rename_i hmove
    obtain ⟨_, -, -, -, rfl⟩ := Registry.transition_eq_ok.1 hmove
    have hresumed : s.owner? (StateChange.resumed sub.id).id ≠ some A := hk
    refine emit ?_ ?_ sub hresumed
    · refine h.change rfl (fun id hid => ?_) (fun _ _ => rfl) (fun _ _ => rfl) fun _ _ => rfl
      rw [Registry.lookup_update, if_neg (ne_of_owner? hk hid)]
    · exact hsound
  · exact h

end Spares

/-! ## Requests -/

/-- All that a check makes of the session is that the new subscription belongs to it. -/
theorem checkEstablish_eq (s : Service) (B B' : Session) (r : EstablishRequest) :
    s.checkEstablish B' r = (s.checkEstablish B r).map fun (request, revision) =>
      ({ request with session := B' }, revision) := by
  unfold checkEstablish
  cases r.stream with
  | none => rfl
  | some stream =>
    simp only
    by_cases hstream : s.streams.contains stream = true
    · simp only [hstream, Bool.not_true, Bool.false_eq_true, if_false]
      cases s.streams.resolve s.schema r.filter with
      | error e => rfl
      | ok resolved => cases hrevision : s.checkTimes stream r <;> rfl
    · simp only [hstream]
      rfl

theorem session_of_checkEstablish {B : Session} {r : EstablishRequest} {request : SubscriptionRequest}
    {revision : Option Instant} (h : s.checkEstablish B r = .ok (request, revision)) : request.session = B := by
  have hsame := s.checkEstablish_eq B B r
  rw [h] at hsame
  have hrequest := congrArg Prod.fst (Except.ok.inj hsame)
  exact congrArg SubscriptionRequest.session hrequest

/-- Ending a subscription of another session spares those of `A`. -/
theorem spares_terminate (hsound : s.dispatcher.Sound) {sub : Subscription}
    (hfound : s.registry.lookup sub.id = some sub) (hne : sub.session.id ≠ A) (reason : TerminationReason) :
    Spares A s (s.terminate sub reason).2 := by
  have hk : s.owner? sub.id ≠ some A := by
    rw [owner?, hfound]
    exact fun he => hne (Option.some.inj he)
  rw [terminate_eq hfound]
  split
  · split
    · refine (Spares.refl A s).change ?_ (fun id hid => ?_) (fun _ _ => rfl) (fun _ _ => rfl) fun _ _ => rfl
      · show ((s.registry.leave sub).sessions.insert sub.session.id _).get? A = _
        rw [Table.get?_insert, if_neg hne, Registry.sessions_leave_of_ne _ _ hne]
      · show ((s.registry.leave sub).subscriptions.insert sub.id _).get? id = _
        rw [Table.get?_insert, if_neg (ne_of_owner? hk hid)]
        exact (Registry.lookup_leave ..).trans (if_neg (ne_of_owner? hk hid))
    · refine Spares.emit (t := s.terminated sub) ?_ hsound sub.ended hk
      refine (Spares.refl A s).change (Registry.sessions_leave_of_ne _ _ hne) (fun id hid => ?_) (fun _ _ => rfl)
        (fun id hid => ?_) fun id hid => ?_
      · rw [Registry.lookup_leave, if_neg (ne_of_owner? hk hid)]
      · rw [Table.get?_erase, if_neg (ne_of_owner? hk hid)]
      · rw [Datastore.read_delete, if_neg]
        rw [DataPath.isBelow_subscription]
        exact ne_of_owner? hk hid
  · exact .refl A s

theorem spares_delete (hwf : s.registry.WF) (hsound : s.dispatcher.Sound) {B : Session} (hne : A ≠ B.id)
    (id : SubscriptionId) : Spares A s (s.delete B id).2 := by
  rcases s.delete_cases B id with ⟨e, he⟩ | ⟨sub, hfound, hsession, he⟩ <;> rw [he]
  · exact .refl A s
  · have hid : sub.id = id := hwf.keyed id sub hfound
    exact spares_terminate hsound (hid ▸ hfound) (hsession ▸ hne.symm) _

theorem spares_modify (hwf : s.registry.WF) (hsound : s.dispatcher.Sound) {B : Session} (hne : A ≠ B.id)
    (r : ModifyRequest) : Spares A s (s.modify B r).2 := by
  rcases s.modify_cases B r with ⟨e, he⟩ | ⟨current, resolved, hcheck, -, he⟩
  · rw [he]
    exact .refl A s
  · obtain ⟨hfound, hsession, -⟩ := checkModify_eq_ok hcheck
    have hid : current.id = r.id := hwf.keyed r.id current hfound
    have hk : s.owner? r.id ≠ some A := by
      rw [owner?, hfound, Option.map_some, hsession]
      exact fun he => hne (Option.some.inj he).symm
    have hupdated : s.owner? (r.change resolved current).id ≠ some A := by
      show s.owner? current.id ≠ some A
      rwa [hid]
    have htold : s.owner? (StateChange.modified (r.change resolved current).terms).id ≠ some A := hupdated
    have hmodified : Spares A s (s.modified r resolved current) ∧ (s.modified r resolved current).dispatcher.Sound := by
      refine ⟨Spares.emit ?_ ?_ _ htold, sound_emit ?_ _ _⟩
      · refine (Spares.refl A s).change rfl (fun id hid => ?_) (fun _ _ => rfl) (fun id hid => ?_) fun id hid => ?_
        · rw [Registry.lookup_update, if_neg (ne_of_owner? hk hid)]
        · rw [Records.get?_scheduled, if_neg (ne_of_owner? hk hid)]
        · rw [Datastore.read_put_subscription, if_neg (ne_of_owner? hk hid)]
      · exact hsound
      · exact hsound
    rw [he]
    simp only
    split
    · exact hmodified.1.resume hmodified.2 hupdated
    · exact hmodified.1

/-- An establish of another session spares the subscriptions of `A`. -/
theorem spares_establish (hsound : s.dispatcher.Sound) (hfresh : s.registry.lookup s.registry.nextId = none)
    {B : Session} (hne : A ≠ B.id) (r : EstablishRequest) : Spares A s (s.establish B r).2 := by
  have hk : s.owner? s.registry.nextId ≠ some A := by
    rw [owner?, hfresh]
    nofun
  have htally : ∀ id, s.owner? id = some A →
      ((s.registry.tallies.insert s.registry.nextId ⟨0, 0⟩).get? id).getD ⟨0, 0⟩ = s.registry.tally id := by
    intro id hid
    rw [Table.get?_insert, if_neg (ne_of_owner? hk hid), Registry.tally]
  rcases s.establish_cases B r with ⟨e, he⟩ | ⟨request, revision, hcheck, houtcome⟩
  · rw [he]
    exact .refl A s
  let sub := Subscription.launched s.registry.nextId request
  have hsession : sub.session.id ≠ A := by
    have hB : request.session = B := session_of_checkEstablish hcheck
    show request.session.id ≠ A
    rw [hB]
    exact hne.symm
  have hindex : (s.registry.enter sub).sessions.get? A = s.registry.sessions.get? A := by
    show (s.registry.sessions.insert sub.session.id _).get? A = _
    rw [Table.get?_insert, if_neg hsession]
  have hlookup : ∀ id, s.owner? id = some A → (s.registry.enter sub).lookup id = s.registry.lookup id := by
    intro id hid
    rw [Registry.lookup_enter]
    exact if_neg (ne_of_owner? hk hid)
  rcases houtcome with ⟨-, he⟩ | ⟨-, he⟩
  · rw [he]
    refine (Spares.refl A s).change ?_ (fun id hid => ?_) htally (fun _ _ => rfl) fun _ _ => rfl
    · exact (Registry.sessions_leave_of_ne _ sub hsession).trans hindex
    · exact ((Registry.lookup_leave _ sub id).trans (if_neg (ne_of_owner? hk hid))).trans (hlookup id hid)
  · rw [he]
    refine Spares.emit (t := s.established sub) ?_ hsound sub hk
    refine (Spares.refl A s).change hindex hlookup htally (fun id hid => ?_) fun id hid => ?_
    · rw [Records.get?_scheduled]
      exact if_neg (ne_of_owner? hk hid)
    · rw [Datastore.read_put_subscription]
      exact if_neg (ne_of_owner? hk hid)

/-! ## The end of a session -/

theorem owner?_drop (hwf : t.registry.WF) (k id : SubscriptionId) :
    (t.drop k).owner? id = if k = id then none else t.owner? id := by
  rw [owner?, lookup_drop hwf]
  split <;> rfl

theorem Spares.drop (h : Spares A s t) (hwf : t.registry.WF) (hsound : t.dispatcher.Sound) {k : SubscriptionId}
    (hk : s.owner? k ≠ some A) (hk' : t.owner? k ≠ some A) : Spares A s (t.drop k) := by
  cases hfound : t.registry.lookup k with
  | none => rwa [drop_of_lookup_none hfound]
  | some sub =>
    obtain rfl : sub.id = k := hwf.keyed k sub hfound
    have hne : sub.session.id ≠ A := by
      rw [owner?, hfound] at hk'
      exact fun he => hk' (congrArg some he)
    rw [drop_eq hfound]
    refine Spares.detach ?_ ?_ hk
    · refine h.change (Registry.sessions_leave_of_ne _ _ hne) (fun id hid => ?_) (fun _ _ => rfl) (fun id hid => ?_)
        fun _ _ => rfl
      · rw [Registry.lookup_leave, if_neg (ne_of_owner? hk hid)]
      · rw [Table.get?_erase, if_neg (ne_of_owner? hk hid)]
    · exact hsound

theorem Spares.foldl_drop {ids : List SubscriptionId} (h : Spares A s t) (hwf : t.registry.WF)
    (hsound : t.dispatcher.Sound) (hids : ∀ k ∈ ids, s.owner? k ≠ some A ∧ t.owner? k ≠ some A) :
    Spares A s (ids.foldl Service.drop t) := by
  induction ids generalizing t with
  | nil => exact h
  | cons k ids ih =>
    obtain ⟨hk, hk'⟩ := hids k List.mem_cons_self
    refine ih (h.drop hwf hsound hk hk') (wf_drop hwf k) (sound_drop hsound k) fun id hid => ?_
    obtain ⟨hsid, htid⟩ := hids id (List.mem_cons_of_mem _ hid)
    refine ⟨hsid, ?_⟩
    rw [owner?_drop hwf]
    split
    · nofun
    · exact htid

/-- The index of a session lists subscriptions of that session only. -/
theorem owner?_of_mem_ofSession (hexact : s.registry.Exact) {session : SessionId} {id : SubscriptionId}
    (hid : id ∈ s.registry.ofSession session) : s.owner? id = some session := by
  have howned : (s.registry.owned session).contains id = true := by
    rw [Registry.ofSession] at hid
    rw [Registry.owned, Table.contains]
    cases hset : s.registry.sessions.get? session with
    | none =>
      rw [hset] at hid
      cases hid
    | some owned =>
      rw [hset] at hid
      exact (Table.mem_keys_iff owned id).1 hid
  exact owner?_eq_some.2 (hexact.registered session id howned)

/-- Closing another session spares the subscriptions of `A`. -/
theorem spares_closeSession (hwf : s.registry.WF) (hsound : s.dispatcher.Sound) (hexact : s.registry.Exact)
    {session : SessionId} (hne : A ≠ session) : Spares A s (s.closeSession session).2 := by
  have hforeign : ∀ k ∈ s.registry.ofSession session, s.owner? k ≠ some A := by
    intro k hk he
    rw [owner?_of_mem_ofSession hexact hk] at he
    exact hne (Option.some.inj he).symm
  have hdropped := (Spares.refl A s).foldl_drop hwf hsound fun k hk => ⟨hforeign k hk, hforeign k hk⟩
  refine hdropped.change rfl (fun _ _ => rfl) (fun _ _ => rfl) (fun _ _ => rfl) fun id hid => ?_
  cases hrefusing : (List.foldl Service.drop s (s.registry.ofSession session)).datastore.refusing with
  | true => rw [Datastore.commitOrKeep_of_refusing hrefusing]
  | false =>
    rw [Datastore.commitOrKeep_of_accepting hrefusing, Records.read_deletions, if_neg]
    rintro ⟨k, hk, hbelow⟩
    rw [(DataPath.isBelow_subscription k id).1 hbelow] at hk
    exact hforeign id (List.mem_of_mem_filter hk) hid

end

end Service

/-! ## What identifies a session -/

/-- A record without what is told of its session but its id. -/
def Subscription.anonymous (s : Subscription) : Subscription := { s with session := ⟨s.session.id, "", none⟩ }

def Registry.anonymous (r : Registry) : Registry :=
  { r with subscriptions := r.subscriptions.map fun _ s => s.anonymous }

namespace Registry

theorem anonymous_enter (r : Registry) (s : Subscription) : (r.enter s).anonymous = r.anonymous.enter s.anonymous := by
  unfold enter anonymous
  congr 1
  refine Table.ext fun id => ?_
  simp only [Table.get?_map, Table.get?_insert]
  by_cases hid : s.id = id
  · simp [Subscription.anonymous, hid]
  · simp [Subscription.anonymous, hid]

theorem anonymous_leave (r : Registry) (s : Subscription) : (r.leave s).anonymous = r.anonymous.leave s.anonymous := by
  unfold leave anonymous
  congr 1
  refine Table.ext fun id => ?_
  simp only [Table.get?_map, Table.get?_erase]
  by_cases hid : s.id = id
  · simp [Subscription.anonymous, hid]
  · simp [Subscription.anonymous, hid]

end Registry

namespace Service

/-- A service that does not know what its sessions are called and who is behind them. -/
def anonymous (s : Service) : Service := { s with registry := s.registry.anonymous }

theorem anonymous_deliver (s : Service) (change : StateChange) (encoding : Encoding) :
    (s.deliver change encoding).2.anonymous = (s.anonymous.deliver change encoding).2 := by
  have hforget : ∀ t : Service,
      (if change.isTerminal then { t with dispatcher := t.dispatcher.forget change.id } else t).anonymous =
        if change.isTerminal then { t.anonymous with dispatcher := t.anonymous.dispatcher.forget change.id }
        else t.anonymous := by
    intro t
    split <;> rfl
  have hgive : ∀ m, (s.give change.id m).2.anonymous = (s.anonymous.give change.id m).2 := by
    intro m
    have hpush : s.anonymous.dispatcher.push? change.id m = s.dispatcher.push? change.id m := rfl
    unfold give
    rw [hpush]
    cases s.dispatcher.push? change.id m <;> rfl
  have hencoded : Message.encode change.id encoding s.anonymous.now change.toNode s.anonymous.schema =
      Message.encode change.id encoding s.now change.toNode s.schema := rfl
  have hcontains : s.anonymous.dispatcher.attached.contains change.id = s.dispatcher.attached.contains change.id := rfl
  unfold deliver
  rw [hencoded, hcontains]
  split
  · cases Message.encode change.id encoding s.now change.toNode s.schema with
    | ok m =>
      simp only
      rw [hforget, hgive]
    | error e => exact hforget s
  · rfl

theorem anonymous_emit (s : Service) (sub : Subscription) (change : StateChange) :
    (s.emit sub change).anonymous = s.anonymous.emit sub change := by
  rw [emit_eq, emit_eq]
  show Service.anonymous (if s.dispatcher.running = true then _ else _) = if s.dispatcher.running = true then _ else _
  split
  · exact anonymous_deliver _ change sub.encoding
  · rfl

theorem anonymous_enter {s : Service} {sub sub' : Subscription} (h : sub.anonymous = sub'.anonymous) :
    (s.registry.enter sub).anonymous = (s.registry.enter sub').anonymous := by
  rw [Registry.anonymous_enter, Registry.anonymous_enter, h]

/-- Two handles of one session are answered the same, and to the same effect but for what the record of a new
subscription tells of its session. -/
theorem establish_of_same_id (s : Service) {B B' : Session} (h : B'.id = B.id) (r : EstablishRequest) :
    (s.establish B' r).1 = (s.establish B r).1 ∧ (s.establish B' r).2.anonymous = (s.establish B r).2.anonymous := by
  unfold establish
  rw [s.checkEstablish_eq B B' r]
  cases hcheck : s.checkEstablish B r with
  | error e => exact ⟨rfl, rfl⟩
  | ok checked =>
    obtain ⟨request, revision⟩ := checked
    let sub := Subscription.launched s.registry.nextId request
    let sub' := Subscription.launched s.registry.nextId { request with session := B' }
    have hsame : sub'.anonymous = sub.anonymous := by
      have hsession : request.session = B := session_of_checkEstablish hcheck
      simp [sub, sub', Subscription.anonymous, Subscription.launched, Subscription.new, hsession, h]
    have hentered := anonymous_enter (s := s) hsame
    simp only [Except.map, Registry.launch_eq]
    by_cases hstream : s.streams.contains request.stream = true
    · simp only [hstream, if_true]
      cases hrefusing : s.datastore.refusing with
      | true =>
        simp only [Datastore.commit_of_refusing hrefusing]
        refine ⟨trivial, ?_⟩
        have hleft : ((s.registry.enter sub').leave sub').anonymous = ((s.registry.enter sub).leave sub).anonymous := by
          rw [Registry.anonymous_leave, Registry.anonymous_leave, hentered, hsame]
        exact congrArg (fun registry : Registry => { s with registry := { registry with
          nextId := s.registry.nextId + 1, tallies := s.registry.tallies.insert s.registry.nextId ⟨0, 0⟩ } }) hleft
      | false =>
        simp only [Datastore.commit_of_accepting hrefusing]
        refine ⟨rfl, ?_⟩
        show ((s.established sub').emit sub' (.started sub'.terms)).anonymous =
          ((s.established sub).emit sub (.started sub.terms)).anonymous
        have hestablished : (s.established sub').anonymous = (s.established sub).anonymous :=
          congrArg (fun registry : Registry => { s.established sub with registry := { registry with
            nextId := s.registry.nextId + 1, tallies := s.registry.tallies.insert s.registry.nextId ⟨0, 0⟩ } }) hentered
        rw [anonymous_emit, anonymous_emit, hestablished]
        rfl
    · simp only [hstream]
      exact ⟨rfl, rfl⟩

theorem answer_of_same_id (s : Service) {B B' : Session} (h : B'.id = B.id) (r : Request) :
    (s.answer B' r).1 = (s.answer B r).1 ∧ (s.answer B' r).2.anonymous = (s.answer B r).2.anonymous := by
  have hsame : ∀ owner : Session, owner.same B' = owner.same B := by
    intro owner
    unfold Session.same
    rw [h]
  cases r with
  | establish r =>
    obtain ⟨hreply, hstate⟩ := s.establish_of_same_id h r
    exact ⟨congrArg (Except.map some) hreply, hstate⟩
  | modify r => simp [answer, modify, checkModify, hsame]
  | delete id => simp [answer, delete, hsame]
  | kill id => exact ⟨rfl, rfl⟩

/-! ## Sessions apart -/

/-- Whatever a session asks for, and when it closes, the subscriptions of every other session stay as they are:
each keeps its record with its state, its tally, its deadline, what the datastore holds of it and its listener with
everything in it, and it is told of nothing. That holds after every run, whether or not the request succeeds; as to
new subscriptions and to the end of a session, as long as ids are given once. A session is known by its id:
another handle with that id is answered the same and to the same effect. -/
theorem sessions_apart (now : Instant) (schema : Schema) (configs : List StreamConfig) (as : List Action)
    {A : SessionId} {B : Session} (hne : A ≠ B.id) :
    let s := (start now schema configs).run as
    (∀ r, Spares A s (s.answer B (.modify r)).2) ∧
    (∀ id, Spares A s (s.answer B (.delete id)).2) ∧
    (as.countP Action.establishes < UInt32.size →
      (∀ r, Spares A s (s.answer B (.establish r)).2) ∧ Spares A s (s.closeSession B.id).2) ∧
    ∀ B' : Session, B'.id = B.id → ∀ r,
      (s.answer B' r).1 = (s.answer B r).1 ∧ (s.answer B' r).2.anonymous = (s.answer B r).2.anonymous := by
  intro s
  have hs : s.Reachable := ⟨now, schema, configs, as, rfl⟩
  refine ⟨spares_modify hs.wf hs.sound hne, spares_delete hs.wf hs.sound hne, fun hcount => ⟨?_, ?_⟩, ?_⟩
  · obtain ⟨n, -, hn, hallotted⟩ := allotted_run Registry.WF.empty (allotted_start now schema configs) as
    have hfresh : s.registry.lookup s.registry.nextId = none := hallotted.fresh (by omega)
    exact spares_establish hs.sound hfresh hne
  · have hfresh : Throughout Fresh (start now schema configs) as :=
      throughout_fresh Registry.WF.empty (allotted_start now schema configs) (by omega)
    exact spares_closeSession hs.wf hs.sound (exact_run Registry.Exact.empty hfresh) hne
  · exact fun B' h r => s.answer_of_same_id h r

/-- Two sessions subscribe and one of them listens; the other closes, and the listener is still there. -/
theorem sessions_apart_otherCloses :
    let subscribe : Request := .establish ⟨some netconfStream, none, none, none, none⟩
    let s := (start ⟨0, 0⟩ .empty []).run
      [.request ⟨1, "", none⟩ subscribe, .request ⟨2, "", none⟩ subscribe, .listen firstSubscriptionId 8]
    (s.registry.lookup firstSubscriptionId).map (·.session.id) = some 1 ∧
      (s.closeSession 2).2.dispatcher.hasOpenListener firstSubscriptionId = true ∧
      (s.closeSession 2).2.registry.size = 1 := by
  intro subscribe s
  have hapart := sessions_apart ⟨0, 0⟩ .empty []
    [.request ⟨1, "", none⟩ subscribe, .request ⟨2, "", none⟩ subscribe, .listen firstSubscriptionId 8]
    (A := 1) (B := ⟨2, "", none⟩) (by decide)
  have howner : s.owner? firstSubscriptionId = some 1 := by decide +kernel
  have hlistener := ((hapart.2.2.1 (by decide)).2.undisturbed firstSubscriptionId howner).listener.listener
  refine ⟨howner, ?_, by decide +kernel⟩
  rw [Dispatcher.hasOpenListener, hlistener]
  decide +kernel

end Service

end YangSubscriptions
