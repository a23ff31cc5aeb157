import YangSubscriptions.Proofs.Service.Isolation
import YangSubscriptions.Proofs.Service.Lifecycle

/-!
# Who owns which subscription

What the answers to requests tell of subscriptions is enough to know who owns them: a new one belongs to the
session that asked for it, and one that was deleted or killed, or that reached its stop-time, to nobody
(`accounts_step`). Only a session that closes takes subscriptions along without an answer (`owner?_closeSession`).
`Orderly` collects what holds of a service whose commits are never refused and where listeners are attached only
on request, and `Booked` ties it to what was told.
-/

namespace YangSubscriptions

/-- What can be told of a subscription from the answer to a request. -/
inductive Entry where
  | established (id : SubscriptionId) (session : SessionId)
  | ended (id : SubscriptionId)

namespace Entry

/-- Does it tell of a new subscription? -/
def starts : Entry → Bool
  | established _ _ => true
  | ended _ => false

/-- The owners after an entry. -/
def note : Entry → (SubscriptionId → Option SessionId) → SubscriptionId → Option SessionId
  | established k session, owners, id => if k = id then some session else owners id
  | ended k, owners, id => if k = id then none else owners id

/-- The owners after all entries, of which the last comes first. -/
def owners (log : List Entry) : SubscriptionId → Option SessionId :=
  log.foldr note fun _ => none

theorem owners_append (es log : List Entry) : owners (es ++ log) = es.foldr note (owners log) := List.foldr_append ..

/-- Who owns a subscription was told so. -/
theorem mem_of_owners {log : List Entry} {id : SubscriptionId} {session : SessionId}
    (h : owners log id = some session) : established id session ∈ log := by
  induction log with
  | nil => cases h
  | cons e log ih =>
    cases e with
    | established k session' =>
      change (if k = id then some session' else owners log id) = some session at h
      split at h
      · rename_i hk
        rw [hk, Option.some.inj h]
        exact List.mem_cons_self
      · exact List.mem_cons_of_mem _ (ih h)
    | ended k =>
      change (if k = id then none else owners log id) = some session at h
      split at h
      · cases h
      · exact List.mem_cons_of_mem _ (ih h)

end Entry

/-- Is it something that clients and streams cause, and no intervention in the datastore or the dispatcher? -/
def Action.isServed : Action → Bool
  | refuse _ | attach _ _ _ => false
  | _ => true

namespace Service

open Records (Revised Given)

variable {s t : Service}

/-- What an action tells of a subscription. -/
def tells (s : Service) : Action → Option Entry
  | .request session (.establish r) =>
    (s.establish session r).1.toOption.map fun reply => .established reply.id session.id
  | .request session (.delete id) => (s.delete session id).1.toOption.map fun _ => .ended id
  | .request _ (.kill id) => (s.kill id).1.toOption.map fun _ => .ended id
  | .expire id => some (.ended id)
  | _ => none

/-! ## What an action changes -/

/-- The owners have changed as the entry tells, and the datastore takes commits as before. -/
structure Accounts (told? : Option Entry) (s t : Service) : Prop where
  owner : t.owner? = told?.toList.foldr Entry.note s.owner?
  refusing : t.datastore.refusing = s.datastore.refusing

theorem accounts_of_revised (h : s.records.Revised t.records) : Accounts none s t := by
  obtain ⟨g, hg, hrecords⟩ := h
  refine ⟨funext fun id => ?_, congrArg (fun r : Records => r.datastore.refusing) hrecords⟩
  have hlookup : t.registry.lookup id = (s.registry.lookup id).map (g id) :=
    (congrArg (fun r : Records => r.registry.lookup id) hrecords).trans (Table.get?_map ..)
  show (t.registry.lookup id).map _ = (s.registry.lookup id).map _
  rw [hlookup, Option.map_map]
  exact Option.map_congr fun sub _ => congrArg Session.id (hg id sub).2.1

theorem Accounts.revised {told? : Option Entry} (h : Accounts told? s t) {u : Service}
    (hu : t.records.Revised u.records) : Accounts told? s u := by
  have hnone := accounts_of_revised hu
  exact ⟨hnone.owner.trans h.owner, hnone.refusing.trans h.refusing⟩

theorem accounts_refl (s : Service) : Accounts none s s := accounts_of_revised (.refl _)

theorem owner?_emit (s : Service) (sub : Subscription) (change : StateChange) : (s.emit sub change).owner? = s.owner? :=
  funext fun id => by rw [owner?, lookup_emit, owner?]

theorem refusing_emit (s : Service) (sub : Subscription) (change : StateChange) :
    (s.emit sub change).datastore.refusing = s.datastore.refusing :=
  congrArg (fun r : Records => r.datastore.refusing) (records_emit s sub change)

/-- An establish accounts for the owner it enters, and for no other. -/
theorem accounts_establish (haccepting : s.datastore.refusing = false) (session : Session) (r : EstablishRequest) :
    Accounts (s.tells (.request session (.establish r))) s (s.establish session r).2 := by
  show Accounts ((s.establish session r).1.toOption.map _) s _
  rcases s.establish_cases session r with ⟨e, he⟩ | ⟨request, revision, hcheck, ⟨hrefusing, -⟩ | ⟨-, he⟩⟩
  · rw [he]
    exact accounts_refl s
  · rw [haccepting] at hrefusing
    cases hrefusing
  · rw [he]
    let sub := Subscription.launched s.registry.nextId request
    refine ⟨(owner?_emit ..).trans (funext fun id => ?_), refusing_emit ..⟩
    have hsession : request.session = session := session_of_checkEstablish hcheck
    show ((s.registry.enter sub).lookup id).map _ = if sub.id = id then some session.id else s.owner? id
    rw [Registry.lookup_enter]
    split
    · show some request.session.id = _
      rw [hsession]
    · rfl

theorem accounts_modify (s : Service) (session : Session) (r : ModifyRequest) :
    Accounts none s (s.modify session r).2 := by
  rcases s.modify_cases session r with ⟨e, he⟩ | ⟨current, resolved, hcheck, -, he⟩
  · rw [he]
    exact accounts_refl s
  · have hmodified : Accounts none s (s.modified r resolved current) := by
      refine ⟨(owner?_emit ..).trans (funext fun id => ?_), refusing_emit ..⟩
      show ((s.registry.update r.id (r.change resolved)).lookup id).map _ = (s.registry.lookup id).map _
      rw [Registry.lookup_update]
      split
      · rw [Option.map_map]
        rfl
      · rfl
    rw [he]
    simp only
    split
    · exact hmodified.revised (revised_resume ..)
    · exact hmodified

/-- A record that is taken out, and told of or not. -/
theorem owner?_leave {registry : Registry} (sub : Subscription) (h : registry = s.registry.leave sub) :
    (fun id => (registry.lookup id).map (·.session.id)) = (Entry.ended sub.id).note s.owner? := by
  funext id
  rw [h, Registry.lookup_leave]
  show _ = if sub.id = id then none else s.owner? id
  split <;> rfl

theorem accounts_terminate (hwf : s.registry.WF) (haccepting : s.datastore.refusing = false) {id : SubscriptionId}
    {sub : Subscription} (hfound : s.registry.lookup id = some sub) (reason : TerminationReason) :
    Accounts ((s.terminate sub reason).1.toOption.map fun _ => .ended id) s (s.terminate sub reason).2 := by
  obtain rfl : sub.id = id := hwf.keyed id sub hfound
  have hlive := (hwf.sound _ sub hfound).live
  rw [terminate_eq hfound, if_pos hlive, haccepting, if_neg Bool.false_ne_true]
  exact ⟨(owner?_emit ..).trans (owner?_leave sub rfl), refusing_emit ..⟩

/-- A completion accounts for the one subscription that it ends. -/
theorem accounts_complete (hwf : s.registry.WF) (id : SubscriptionId) :
    Accounts (some (.ended id)) s (s.complete id) := by
  cases hfound : s.registry.lookup id with
  | none =>
    rw [complete_of_lookup_none hfound]
    refine ⟨funext fun k => ?_, rfl⟩
    show s.owner? k = if id = k then none else s.owner? k
    split
    · rename_i hk
      rw [← hk, owner?, hfound]
      rfl
    · rfl
  | some sub =>
    obtain rfl : sub.id = id := hwf.keyed id sub hfound
    rw [complete_eq hfound (hwf.sound _ sub hfound).live]
    exact ⟨(owner?_emit ..).trans (owner?_leave sub rfl),
      (refusing_emit ..).trans (Datastore.refusing_commitOrKeep ..)⟩

/-- The answers tell of every change of owners but those that a session causes when it closes. -/
theorem accounts_step (hwf : s.registry.WF) (haccepting : s.datastore.refusing = false) {a : Action}
    (hclose : ∀ session, a ≠ .closeSession session) (hrefuse : ∀ refusing, a ≠ .refuse refusing) :
    Accounts (s.tells a) s (s.step a) := by
  cases a with
  | request session r =>
    cases r with
    | establish r => exact accounts_establish haccepting session r
    | modify r => exact accounts_modify s session r
    | delete id =>
      show Accounts ((s.delete session id).1.toOption.map _) s (s.delete session id).2
      rcases s.delete_cases session id with ⟨e, he⟩ | ⟨sub, hfound, -, he⟩ <;> rw [he]
      · exact accounts_refl s
      · exact accounts_terminate hwf haccepting hfound _
    | kill id =>
      show Accounts ((s.kill id).1.toOption.map _) s (s.kill id).2
      rcases s.kill_cases id with ⟨e, he⟩ | ⟨sub, hfound, he⟩ <;> rw [he]
      · exact accounts_refl s
      · exact accounts_terminate hwf haccepting hfound _
  | closeSession session => exact absurd rfl (hclose session)
  | expire id => exact accounts_complete hwf id
  | putFilter | removeFilter | setSchema | revalidate => exact accounts_of_revised (revised_of_revises s rfl)
  | refuse refusing => exact absurd rfl (hrefuse refusing)
  | wait now => exact accounts_of_revised (.of_eq rfl)
  | _ => exact accounts_of_revised (.of_eq (records_of_atRest (s.atRest_step rfl)))

/-! ## Sessions that close -/

theorem mem_ofSession (hwf : s.registry.WF) (hexact : s.registry.Exact) {session : SessionId} {id : SubscriptionId} :
    id ∈ s.registry.ofSession session ↔ s.owner? id = some session := by
  refine ⟨owner?_of_mem_ofSession hexact, fun h => ?_⟩
  obtain ⟨sub, hsub, rfl⟩ := owner?_eq_some.1 h
  obtain ⟨owned, howned, hid⟩ := hwf.indexed id sub hsub
  rw [Registry.ofSession, howned]
  rw [hwf.keyed id sub hsub] at hid
  exact (Table.mem_keys_iff owned id).2 (hid ▸ rfl)

/-- A session that owns nothing has no set in the index. -/
theorem sessions_eq_none (hexact : s.registry.Exact) {session : SessionId} (h : ∀ id, s.owner? id ≠ some session) :
    s.registry.sessions.get? session = none := by
  rw [Option.eq_none_iff_forall_ne_some]
  rintro owned howned
  refine hexact.nonempty session (howned.trans (congrArg some (Table.eq_empty_iff.2 fun id => ?_)))
  rw [← Option.not_isSome_iff_eq_none]
  intro hid
  have hcontains : (s.registry.owned session).contains id = true := by
    rw [Registry.owned, howned]
    exact hid
  exact h id (owner?_eq_some.2 (hexact.registered session id hcontains))

/-- Closing a session takes every id it owns, and no other. -/
theorem owner?_closeSession (hwf : s.registry.WF) (hexact : s.registry.Exact) (session : SessionId)
    (id : SubscriptionId) :
    (s.closeSession session).2.owner? id = if s.owner? id = some session then none else s.owner? id := by
  rw [owner?, lookup_closeSession hwf]
  simp only [mem_ofSession hwf hexact]
  split <;> rfl

/-- A session that owns nothing closes without a trace. -/
theorem closeSession_eq_self (hexact : s.registry.Exact) {session : SessionId} (h : ∀ id, s.owner? id ≠ some session) :
    s.closeSession session = ([], s) := by
  have hnone : s.registry.ofSession session = [] := by
    rw [Registry.ofSession, sessions_eq_none hexact h]
    rfl
  have hkeep : s.datastore.commitOrKeep [] = s.datastore := by
    cases hrefusing : s.datastore.refusing with
    | true => exact Datastore.commitOrKeep_of_refusing hrefusing []
    | false => exact Datastore.commitOrKeep_of_accepting hrefusing []
  unfold closeSession
  simp only [hnone, List.filter_nil, List.map_nil, List.foldl_nil, hkeep]

/-! ## Listeners of what is registered -/

/-- Whoever has a listener attached is registered. -/
def Tended (s : Service) : Prop :=
  ∀ id l, s.dispatcher.attached.get? id = some l → (s.registry.lookup id).isSome

/-- Nothing that carries notifications attaches a listener, unless somebody asks to listen or attaches one. -/
theorem attached_of_carries {a : Action} (hcarries : a.carries = true)
    (hattach : ∀ id capacity replace, a ≠ .attach id capacity replace) {id : SubscriptionId} {l : ListenerId}
    (h : (s.step a).dispatcher.attached.get? id = some l) :
    s.dispatcher.attached.get? id = some l ∨ (s.registry.lookup id).isSome := by
  have hmove : ∀ m : Move, (∀ capacity replace, m ≠ .attach id capacity replace) →
      (s.move m).dispatcher.attached.get? id = some l → s.dispatcher.attached.get? id = some l := by
    intro m hm h
    rcases attached_move h with h | ⟨capacity, replace, he⟩
    · exact h
    · exact absurd he (hm capacity replace)
  cases a with
  | publish n => exact .inl h
  | dispatch stream => exact .inl (hmove (.dispatch stream) (by simp) h)
  | listen k capacity =>
    change (s.listen k capacity).2.dispatcher.attached.get? id = some l at h
    unfold listen at h
    split at h
    · exact .inl h
    · rename_i sub hsub
      split at h
      · have hattached : ∀ t, (s.attach k capacity false).2.2 = t → t.dispatcher.attached.get? id = some l →
            s.dispatcher.attached.get? id = some l ∨ (s.registry.lookup id).isSome := by
          rintro t rfl ht
          rcases attached_move (m := .attach k capacity false) ht with ht | ⟨_, _, he⟩
          · exact .inl ht
          · cases he
            exact .inr (by rw [hsub]; rfl)
        split at h <;> rename_i he <;> exact hattached _ (by rw [he]) h
      · exact .inl h
  | attach k capacity replace => exact absurd rfl (hattach k capacity replace)
  | detach k => exact .inl (hmove (.detach k) (by simp) h)
  | receive k max => exact .inl (hmove (.receive k max) (by simp) h)
  | hangUp k => exact .inl h
  | stop => exact .inl (hmove .stop (by simp) h)
  | closeFeeds => exact .inl h
  | _ => cases hcarries

theorem Tended.step (h : s.Tended) (hsound : s.dispatcher.Sound) {a : Action} (hunheard : Unheard s a)
    (hattach : ∀ id capacity replace, a ≠ .attach id capacity replace) : (s.step a).Tended := by
  intro id l hl
  rw [← Option.isSome_map (f := fun sub : Subscription => sub.state)]
  show ((s.step a).stateOf id).isSome = true
  have hstate : ∀ t : Service, (t.stateOf id).isSome = (t.registry.lookup id).isSome := fun t => Option.isSome_map
  cases hcarries : a.carries with
  | true =>
    rw [stateOf_step hcarries, hstate]
    rcases attached_of_carries hcarries hattach hl with hl | hregistered
    · exact h id l hl
    · exact hregistered
  | false =>
    obtain ⟨hl', hstill⟩ := (episodes_step hunheard hcarries).attached hsound hl
    have hbefore : (s.stateOf id).isSome = true := (hstate s).trans (h id l hl')
    exact Option.isSome_iff_ne_none.2 (hstill (Option.isSome_iff_ne_none.1 hbefore))

/-! ## Orderly services -/

/-- The datastore takes commits, all stores agree on what is registered, and ids were given once, `n` of them. -/
structure Orderly (n : Nat) (s : Service) : Prop where
  heard : Heard n s
  exact : s.registry.Exact
  agree : s.records.Agree
  sound : s.dispatcher.Sound
  tended : s.Tended
  accepting : s.datastore.refusing = false

theorem orderly_start (now : Instant) (schema : Schema) (configs : List StreamConfig) :
    Orderly 0 (start now schema configs) where
  heard := heard_start now schema configs
  exact := Registry.Exact.empty
  agree := Records.agree_start false
  sound := Dispatcher.sound_empty
  tended := nofun
  accepting := rfl

theorem refusing_closeSession (s : Service) (session : SessionId) :
    (s.closeSession session).2.datastore.refusing = s.datastore.refusing := by
  have hdrops := congrArg Records.datastore (records_foldl_drop (s.registry.ofSession session) s)
  rw [Records.datastore_foldl_drop] at hdrops
  exact (Datastore.refusing_commitOrKeep ..).trans (congrArg Datastore.refusing hdrops)

/-- A request for a subscription that is answered with an error changes nothing, as it was not the commit. -/
theorem step_of_unestablished (haccepting : s.datastore.refusing = false) {a : Action} (ha : a.establishes = true)
    (h : s.tells a = none) : s.step a = s := by
  obtain ⟨session, r, rfl⟩ := Action.exists_of_establishes ha
  change (s.establish session r).1.toOption.map _ = none at h
  cases hresult : s.establish session r with
  | mk result t =>
    rw [hresult] at h
    cases result with
    | ok reply => cases h
    | error e =>
      show (s.establish session r).2 = s
      rw [hresult]
      rcases establish_eq_error hresult with he | ⟨hrefusing, -⟩
      · exact he
      · rw [haccepting] at hrefusing
        cases hrefusing

/-- A new subscription gets the next id and belongs to the session that asked for it. -/
theorem tells_eq_established {a : Action} {id : SubscriptionId} {session : SessionId}
    (h : s.tells a = some (.established id session)) :
    id = s.registry.nextId ∧ ∃ B r, a = .request B (.establish r) ∧ B.id = session := by
  unfold tells at h
  split at h
  · rename_i B r
    obtain ⟨reply, hreply, he⟩ := Option.map_eq_some_iff.1 h
    cases he
    cases hresult : s.establish B r with
    | mk result t =>
      rw [hresult] at hreply
      cases result with
      | ok reply' =>
        cases hreply
        exact ⟨id_of_establish hresult, B, r, rfl, rfl⟩
      | error e => cases hreply
  · obtain ⟨_, -, he⟩ := Option.map_eq_some_iff.1 h
    cases he
  · obtain ⟨_, -, he⟩ := Option.map_eq_some_iff.1 h
    cases he
  · cases h
  · cases h

namespace Orderly

variable {n : Nat}

theorem unheard (h : Orderly n s) {a : Action} (hcount : a.establishes = true → n < UInt32.size) : Unheard s a := by
  cases hestablishes : a.establishes with
  | true => exact h.heard.unheard (by rw [if_pos hestablishes]; exact hcount hestablishes)
  | false => exact unheard_of_not_establishes h.heard.wf hestablishes

theorem step (h : Orderly n s) {a : Action} (ha : a.isServed = true) (hunheard : Unheard s a) :
    ∃ m, n ≤ m ∧ (m ≤ n + if a.establishes then 1 else 0) ∧ Orderly m (s.step a) := by
  have hwf := h.heard.wf
  obtain ⟨m, hnm, hm, hheard⟩ := h.heard.step a
  have hattach : ∀ id capacity replace, a ≠ .attach id capacity replace := by
    rintro id capacity replace rfl
    cases ha
  have hrefuse : ∀ refusing, a ≠ .refuse refusing := by
    rintro refusing rfl
    cases ha
  refine ⟨m, hnm, hm, hheard, exact_step h.exact hunheard.toFresh, ?_, sound_step h.sound a,
    h.tended.step h.sound hunheard hattach, ?_⟩
  · refine (step_turn hwf a).agree (Registry.wf_untallied.2 hwf) h.agree ?_ hunheard.absent
    rintro ⟨-, hrefusing⟩
    rw [h.accepting] at hrefusing
    cases hrefusing
  · by_cases hclose : ∃ session, a = .closeSession session
    · obtain ⟨session, rfl⟩ := hclose
      exact (refusing_closeSession s session).trans h.accepting
    · exact (accounts_step hwf h.accepting (not_exists.1 hclose) hrefuse).refusing.trans h.accepting

end Orderly

/-- There is nothing left of a subscription: no record, no place in the index, no deadline, nothing in the datastore
and no listener. -/
structure Vanished (id : SubscriptionId) (s : Service) : Prop where
  record : s.registry.lookup id = none
  unlisted : ∀ session, id ∉ s.registry.ofSession session
  deadline : s.deadlines.get? id = none
  data : s.datastore.read (.subscription id) = none
  listener : s.dispatcher.attached.get? id = none

theorem Orderly.vanished {n : Nat} (h : Orderly n s) {id : SubscriptionId} (hid : s.owner? id = none) :
    Vanished id s := by
  have habsent : s.registry.lookup id = none := Option.map_eq_none_iff.1 hid
  refine ⟨habsent, fun session hlisted => ?_, ?_, ?_, ?_⟩
  · rw [owner?_of_mem_ofSession h.exact hlisted] at hid
    cases hid
  · exact (h.agree.timed id).trans (by rw [lookup_records, habsent]; rfl)
  · exact (h.agree.recorded id).trans (by rw [lookup_records, habsent]; rfl)
  · rw [Option.eq_none_iff_forall_ne_some]
    intro l hl
    have hregistered := h.tended id l hl
    rw [habsent] at hregistered
    cases hregistered

/-! ## Services and what was told of them -/

/-- Every id that was given was given to one session, and the service is orderly with as many ids. -/
structure Booked (log : List Entry) (s : Service) : Prop where
  orderly : ∃ n ≤ log.countP Entry.starts, Orderly n s ∧ ∀ id session, .established id session ∈ log → Given n id
  once : ∀ id session, .established id session ∈ log →
    Entry.owners log id = some session ∨ Entry.owners log id = none

theorem booked_start (now : Instant) (schema : Schema) (configs : List StreamConfig) :
    Booked [] (start now schema configs) := ⟨⟨0, Nat.le_refl 0, orderly_start now schema configs, nofun⟩, nofun⟩

namespace Booked

variable {log : List Entry}

/-- A new subscription gets an id that was given to nobody. -/
theorem established (h : Booked log s) {a : Action} (ha : a.isServed = true) {id : SubscriptionId}
    {session : SessionId} (hentry : s.tells a = some (.established id session))
    (hcount : log.countP Entry.starts < UInt32.size) : Booked (.established id session :: log) (s.step a) := by
  obtain ⟨n, hn, horderly, hgiven⟩ := h.orderly
  obtain ⟨hid, B, r, rfl, -⟩ := tells_eq_established hentry
  obtain ⟨m, hnm, hm, hstep⟩ := horderly.step ha (horderly.unheard fun _ => by omega)
  change m ≤ n + 1 at hm
  have howner : (s.step (.request B (.establish r))).owner? id = some session := by
    have hchange := (accounts_establish horderly.accepting B r).owner
    rw [hentry] at hchange
    exact (congrFun hchange id).trans (if_pos rfl)
  obtain ⟨sub, hsub, -⟩ := owner?_eq_some.1 howner
  refine ⟨⟨m, ?_, hstep, fun k session' hk => ?_⟩, fun k session' hk => ?_⟩
  · have hmore : (Entry.established id session :: log).countP Entry.starts = log.countP Entry.starts + 1 :=
      List.countP_cons_of_pos rfl
    omega
  · rcases List.mem_cons.1 hk with he | hk
    · cases he
      exact hstep.heard.allotted.given _ sub hsub
    · exact (hgiven k session' hk).mono hnm
  · rcases List.mem_cons.1 hk with he | hk
    · cases he
      exact .inl (if_pos rfl)
    · -- an id that was given before is another one
      have hne : id ≠ k := by
        rintro rfl
        have hnext : s.registry.nextId = firstSubscriptionId + UInt32.ofNat n := horderly.heard.allotted.next
        rw [hnext] at hid
        exact Records.not_given (by omega) (hid ▸ hgiven id session' hk)
      have hsame : Entry.owners (.established id session :: log) k = Entry.owners log k := if_neg hne
      rw [hsame]
      exact h.once k session' hk

/-- What is told of no new subscription. -/
theorem silent (h : Booked log s) {a : Action} (ha : a.isServed = true) (hestablishes : a.establishes = false) :
    Booked ((s.tells a).toList ++ log) (s.step a) := by
  obtain ⟨n, hn, horderly, hgiven⟩ := h.orderly
  obtain ⟨m, hnm, hm, hstep⟩ := horderly.step ha (unheard_of_not_establishes horderly.heard.wf hestablishes)
  rw [hestablishes] at hm
  obtain rfl : m = n := Nat.le_antisymm hm hnm
  cases hentry : s.tells a with
  | none => exact ⟨⟨m, hn, hstep, hgiven⟩, h.once⟩
  | some e =>
    cases e with
    | established id session =>
      obtain ⟨-, B, r, rfl, -⟩ := tells_eq_established hentry
      cases hestablishes
    | ended k =>
      have hold : ∀ id session, Entry.established id session ∈ Entry.ended k :: log →
          Entry.established id session ∈ log :=
        fun id session hid => (List.mem_cons.1 hid).resolve_left nofun
      refine ⟨⟨m, hn, hstep, fun id session hid => hgiven id session (hold id session hid)⟩, fun id session hid => ?_⟩
      show (if k = id then none else Entry.owners log id) = _ ∨ (if k = id then none else _) = _
      split
      · exact .inr rfl
      · exact h.once id session (hold id session hid)

theorem step (h : Booked log s) {a : Action} (ha : a.isServed = true)
    (hcount : ((s.tells a).toList ++ log).countP Entry.starts ≤ UInt32.size) :
    Booked ((s.tells a).toList ++ log) (s.step a) := by
  cases hestablishes : a.establishes with
  | false => exact h.silent ha hestablishes
  | true =>
    cases hentry : s.tells a with
    | none =>
      obtain ⟨n, -, horderly, -⟩ := h.orderly
      rw [step_of_unestablished horderly.accepting hestablishes hentry]
      exact h
    | some e =>
      obtain ⟨session, r, rfl⟩ := Action.exists_of_establishes hestablishes
      obtain ⟨reply, -, rfl⟩ := Option.map_eq_some_iff.1 hentry
      rw [hentry] at hcount
      refine h.established ha hentry ?_
      have hmore : (Entry.established reply.id session.id :: log).countP Entry.starts = log.countP Entry.starts + 1 :=
        List.countP_cons_of_pos rfl
      change (Entry.established reply.id session.id :: log).countP Entry.starts ≤ _ at hcount
      omega

end Booked

end Service

end YangSubscriptions
