import YangSubscriptions.Proofs.Service.Outcomes
import YangSubscriptions.Proofs.Service.Records

/-!
# Turns of the records

Every action makes exactly one turn of the records (`step_turn`): it revises them, lets the datastore
refuse or accept, spends an id, establishes, modifies or removes. `Turn` says all that a turn can
change, with the state of the datastore it needs. The two parameters tell whether the turn may leave
the datastore behind and whether it may take a new id.
-/

namespace YangSubscriptions

namespace Records

/-! ## Revisions -/

/-- Changes the resolved filters, states and reasons of records, and nothing that was asked for. -/
def Revised (r r' : Records) : Prop :=
  ∃ g : SubscriptionId → Subscription → Subscription,
    (∀ id s, (g id s).terms = s.terms ∧ (g id s).session = s.session ∧ (s.Sound → (g id s).Sound)) ∧
      r' = { r with registry := { r.registry with subscriptions := r.registry.subscriptions.map g } }

theorem Revised.refl (r : Records) : r.Revised r :=
  ⟨fun _ s => s, fun _ _ => ⟨rfl, rfl, id⟩, by rw [Table.map_eq_self fun _ _ => rfl]⟩

theorem Revised.of_eq {r r' : Records} (h : r' = r) : r.Revised r' := h ▸ .refl r

/-- A revision of a revision is one. -/
theorem Revised.trans {r r' r'' : Records} (h : r.Revised r') (h' : r'.Revised r'') : r.Revised r'' := by
  obtain ⟨f, hf, rfl⟩ := h
  obtain ⟨g, hg, rfl⟩ := h'
  refine ⟨fun id s => g id (f id s), fun id s => ?_, ?_⟩
  · obtain ⟨hterms, hsession, hsound⟩ := hf id s
    obtain ⟨hterms', hsession', hsound'⟩ := hg id (f id s)
    exact ⟨hterms'.trans hterms, hsession'.trans hsession, fun h => hsound' (hsound h)⟩
  · simp only [Table.map_map]

theorem Revised.update (r : Records) (id : SubscriptionId) {f : Subscription → Subscription}
    (h : ∀ s, (f s).terms = s.terms ∧ (f s).session = s.session ∧ (s.Sound → (f s).Sound)) :
    r.Revised { r with registry := r.registry.update id f } := by
  refine ⟨fun k s => if k = id then f s else s, fun k s => ?_, rfl⟩
  by_cases hk : k = id
  · simp only [hk, if_true]
    exact h s
  · simp only [hk, if_false]
    exact ⟨trivial, trivial, fun h => h⟩

theorem Revised.foldl {α : Type} {f : Service → α → Service} (h : ∀ (s : Service) x, s.records.Revised (f s x).records)
    (xs : List α) (s : Service) : s.records.Revised (xs.foldl f s).records := by
  induction xs generalizing s with
  | nil => exact .refl _
  | cons x xs ih => exact (h s x).trans (ih (f s x))

/-! ## Turns -/

/-- Takes a record out, with its deadline. -/
def drop (r : Records) (id : SubscriptionId) : Records :=
  match r.registry.lookup id with
  | some s => { r with registry := r.registry.leave s, deadlines := r.deadlines.erase id }
  | none => r

/-- The writes that delete the records that are there. -/
def deletions (r : Records) (ids : List SubscriptionId) : List Write :=
  (ids.filter fun id => (r.registry.lookup id).isSome).map fun id => .delete (.subscription id)

theorem drop_eq {r : Records} {id : SubscriptionId} {s : Subscription} (h : r.registry.lookup id = some s) :
    r.drop id = { r with registry := r.registry.leave s, deadlines := r.deadlines.erase id } := by
  simp only [drop, h]

theorem drop_of_lookup_none {r : Records} {id : SubscriptionId} (h : r.registry.lookup id = none) : r.drop id = r := by
  simp only [drop, h]

@[simp] theorem datastore_drop (r : Records) (id : SubscriptionId) : (r.drop id).datastore = r.datastore := by
  unfold drop
  split <;> rfl

theorem datastore_foldl_drop (ids : List SubscriptionId) (r : Records) :
    (ids.foldl drop r).datastore = r.datastore := by
  induction ids generalizing r with
  | nil => rfl
  | cons id ids ih => rw [List.foldl_cons, ih, datastore_drop]

theorem deletions_singleton {r : Records} {id : SubscriptionId} {s : Subscription}
    (h : r.registry.lookup id = some s) : r.deletions [id] = [.delete (.subscription id)] := by
  simp [deletions, h]

/-- Everything that one action can make of the records. -/
inductive Turn (leaks creates : Prop) (r : Records) : Records → Prop where
  | revised {r' : Records} (h : r.Revised r') : Turn leaks creates r r'
  | switched (refusing : Bool) : Turn leaks creates r { r with datastore := { r.datastore with refusing } }
  | spent (s : Subscription) (h : creates) (hid : s.id = r.registry.nextId) (sound : s.Sound) :
    Turn leaks creates r
      { r with registry := { (r.registry.enter s).leave s with nextId := r.registry.nextId + 1 } }
  | established (s : Subscription) (h : creates) (hid : s.id = r.registry.nextId) (sound : s.Sound)
    (accepting : r.datastore.refusing = false) :
    Turn leaks creates r
      { registry := { r.registry.enter s with nextId := r.registry.nextId + 1 }
        datastore := r.datastore.apply (.put (.subscription s.id) s.toJson)
        deadlines := Service.scheduled r.deadlines s.id s.stopTime }
  | modified (id : SubscriptionId) (s : Subscription) (f : Subscription → Subscription) (stop : Option Instant)
    (found : r.registry.lookup id = some s)
    (keeps : ∀ c, (f c).id = c.id ∧ (f c).session = c.session ∧ (c.Sound → (f c).Sound))
    (stopTime : (f s).stopTime = stop.or s.stopTime) (accepting : r.datastore.refusing = false) :
    Turn leaks creates r
      { registry := r.registry.update id f
        datastore := r.datastore.apply (.put (.subscription id) (f s).toJson)
        deadlines := Service.scheduled r.deadlines id stop }
  | removed (ids : List SubscriptionId) (accepting : r.datastore.refusing = false) :
    Turn leaks creates r { ids.foldl drop r with datastore := (r.deletions ids).foldl Datastore.apply r.datastore }
  | leaked (ids : List SubscriptionId) (h : leaks) : Turn leaks creates r (ids.foldl drop r)
  | rang (id : SubscriptionId) (absent : r.registry.lookup id = none) :
    Turn leaks creates r { r with deadlines := r.deadlines.erase id }

theorem Turn.of_eq {leaks creates : Prop} {r r' : Records} (h : r' = r) : Turn leaks creates r r' :=
  .revised (.of_eq h)

end Records

namespace Service

open Records (Revised Turn)

/-! ## What operations make of the records -/

/-- Resuming changes a state in the records, or nothing. -/
theorem records_resume (s : Service) (sub : Subscription) :
    (s.resume sub).records = s.records ∨
      (s.resume sub).records =
        { s.records with registry := s.records.registry.update sub.id Subscription.resumed } := by
  unfold resume
  split
  · rename_i previous registry hmove
    obtain ⟨_, -, -, -, rfl⟩ := Registry.transition_eq_ok.1 hmove
    rw [records_emit]
    exact .inr rfl
  · exact .inl rfl

theorem revised_resume (s : Service) (sub : Subscription) : s.records.Revised (s.resume sub).records := by
  rcases records_resume s sub with h | h
  · exact .of_eq h
  · rw [h]
    exact Revised.update s.records sub.id fun _ => ⟨rfl, rfl, fun _ => ⟨rfl, fun h => by cases h⟩⟩

theorem revised_revalidateOne (s : Service) (id : SubscriptionId) :
    s.records.Revised (s.revalidateOne id).records := by
  unfold revalidateOne
  split
  · exact .refl _
  · rename_i sub _
    split
    · rename_i resolved _
      have hresolved : s.records.Revised
          { s with registry := s.registry.update id fun r => { r with resolved } }.records :=
        Revised.update s.records id (f := fun r => { r with resolved }) fun _ => ⟨rfl, rfl, fun h => ⟨h.live, h.reason⟩⟩
      simp only
      split
      · exact hresolved.trans (revised_resume ..)
      · exact hresolved
    · split
      · split
        · rename_i previous registry hsuspend
          obtain ⟨_, -, -, -, rfl⟩ := Registry.transition_eq_ok.1 hsuspend
          rw [records_emit]
          exact Revised.update s.records id
            (f := fun r => { r with state := .suspended, suspension := some .filterUnavailable })
            fun _ => ⟨rfl, rfl, fun _ => ⟨rfl, fun _ => rfl⟩⟩
        · exact .refl _
      · exact .refl _

theorem revised_revalidate (s : Service) : s.records.Revised s.revalidate.records :=
  Revised.foldl revised_revalidateOne _ s

theorem revised_of_revises (s : Service) {a : Action} (ha : a.revises = true) :
    s.records.Revised (s.step a).records := by
  obtain ⟨streams, schema, -, he | he⟩ := s.step_of_revises ha <;> rw [he]
  · exact .of_eq rfl
  · exact revised_revalidate { s with streams, schema }

theorem records_drop (s : Service) (id : SubscriptionId) : (s.drop id).records = s.records.drop id := by
  cases h : s.registry.lookup id with
  | none => rw [drop_of_lookup_none h, Records.drop, lookup_records, h]
  | some sub =>
    rw [drop_eq h, records_of_atRest (atRest_detach ..), Records.drop, lookup_records, h]
    rfl

theorem records_foldl_drop (ids : List SubscriptionId) (s : Service) :
    (ids.foldl drop s).records = ids.foldl Records.drop s.records := by
  induction ids generalizing s with
  | nil => rfl
  | cons id ids ih => rw [List.foldl_cons, List.foldl_cons, ih, records_drop]

/-! ## Turns of requests -/

section
variable {leaks creates : Prop}

theorem turn_establish (s : Service) (session : Session) (r : EstablishRequest) (h : creates) :
    Turn leaks creates s.records (s.establish session r).2.records := by
  rcases s.establish_cases session r with ⟨e, he⟩ | ⟨request, revision, -, ⟨-, he⟩ | ⟨haccepting, he⟩⟩
  · rw [he]
    exact .of_eq rfl
  · rw [he]
    exact .spent (.launched s.registry.nextId request) h rfl (Subscription.sound_launched ..)
  · rw [he, records_emit]
    exact .established (.launched s.registry.nextId request) h rfl (Subscription.sound_launched ..) haccepting

/-- A modify request, granted or refused, is a turn. -/
theorem turn_modify {s : Service} (hwf : s.registry.WF) (session : Session) (r : ModifyRequest) :
    Turn leaks creates s.records (s.modify session r).2.records := by
  rcases s.modify_cases session r with ⟨e, he⟩ | ⟨current, resolved, hcheck, haccepting, he⟩
  · rw [he]
    exact .of_eq rfl
  · obtain ⟨hfound, -, -⟩ := checkModify_eq_ok hcheck
    have hid : current.id = r.id := hwf.keyed r.id current hfound
    have hmodified : (s.modified r resolved current).records =
        { registry := s.records.registry.update r.id (r.change resolved)
          datastore := s.datastore.apply (.put (.subscription r.id) (r.change resolved current).toJson)
          deadlines := scheduled s.deadlines r.id r.stopTime } := records_emit ..
    have hturn : Turn leaks creates s.records (s.modified r resolved current).records := by
      rw [hmodified]
      exact .modified r.id current (r.change resolved) r.stopTime hfound
        (fun _ => ⟨rfl, rfl, fun h => ⟨h.live, h.reason⟩⟩) rfl haccepting
    rw [he]
    simp only
    split
    · rcases records_resume (s.modified r resolved current) (r.change resolved current) with h | h
      · rw [h]
        exact hturn
      · -- the two changes of the record are one
        rw [h, hmodified]
        simp only [show (r.change resolved current).id = r.id from hid, Registry.update_update]
        exact .modified r.id current (fun c => (r.change resolved c).resumed) r.stopTime hfound
          (fun _ => ⟨rfl, rfl, fun _ => ⟨rfl, fun h => by cases h⟩⟩) rfl haccepting
    · exact hturn

/-- So is the end of a subscription, whether or not it is committed. -/
theorem turn_terminate {s : Service} (hwf : s.registry.WF) {id : SubscriptionId} {sub : Subscription}
    (hfound : s.registry.lookup id = some sub) (reason : TerminationReason) :
    Turn leaks creates s.records (s.terminate sub reason).2.records := by
  obtain rfl : sub.id = id := hwf.keyed id sub hfound
  rw [terminate_eq hfound, if_pos (hwf.sound _ sub hfound).live]
  by_cases hrefusing : s.datastore.refusing = true
  · rw [if_pos hrefusing]
    have hback := Registry.reinstate_ended (r := s.records.registry) hfound (hwf.indexed _ sub hfound)
    have h : s.records.Revised
        { s.records with registry := (s.records.registry.leave sub).reinstate sub.ended sub.state } := by
      rw [hback]
      exact Revised.update s.records sub.id fun _ => ⟨rfl, rfl, fun h => ⟨h.live, fun h => by cases h⟩⟩
    exact .revised h
  · rw [if_neg hrefusing, records_emit]
    have h : Turn leaks creates s.records _ := .removed [sub.id] (Bool.eq_false_iff.2 hrefusing)
    rw [List.foldl_cons, List.foldl_nil, Records.drop_eq hfound, Records.deletions_singleton hfound] at h
    exact h

theorem turn_complete {s : Service} (hwf : s.registry.WF) (id : SubscriptionId)
    (h : s.datastore.refusing = true → leaks) : Turn leaks creates s.records (s.complete id).records := by
  cases hfound : s.registry.lookup id with
  | none =>
    rw [complete_of_lookup_none hfound]
    exact .rang id hfound
  | some sub =>
    obtain rfl : sub.id = id := hwf.keyed id sub hfound
    rw [complete_eq hfound (hwf.sound _ sub hfound).live, records_emit]
    cases hrefusing : s.datastore.refusing with
    | true =>
      have h : Turn leaks creates s.records _ := .leaked [sub.id] (h hrefusing)
      rw [List.foldl_cons, List.foldl_nil, Records.drop_eq hfound] at h
      rw [Datastore.commitOrKeep_of_refusing hrefusing]
      exact h
    | false =>
      have h : Turn leaks creates s.records _ := .removed [sub.id] hrefusing
      rw [List.foldl_cons, List.foldl_nil, Records.drop_eq hfound, Records.deletions_singleton hfound] at h
      rw [Datastore.commitOrKeep_of_accepting hrefusing]
      exact h

/-- A session that closes takes all it owns in one turn; while commits are refused, that leaks. -/
theorem turn_closeSession (s : Service) (session : SessionId) (h : s.datastore.refusing = true → leaks) :
    Turn leaks creates s.records (s.closeSession session).2.records := by
  let ids := s.registry.ofSession session
  have hfold := records_foldl_drop ids s
  have hstore : (ids.foldl Service.drop s).datastore = s.datastore :=
    (congrArg Records.datastore hfold).trans (Records.datastore_foldl_drop ids s.records)
  have hclosed : (s.closeSession session).2.records =
      { ids.foldl Records.drop s.records with datastore := s.datastore.commitOrKeep (s.records.deletions ids) } := by
    rw [← hfold]
    show Records.mk _ ((ids.foldl Service.drop s).datastore.commitOrKeep _) _ = _
    rw [hstore]
    rfl
  rw [hclosed]
  cases hrefusing : s.datastore.refusing with
  | true =>
    rw [Datastore.commitOrKeep_of_refusing hrefusing]
    have h : Turn leaks creates s.records _ := .leaked ids (h hrefusing)
    have hsame : { ids.foldl Records.drop s.records with datastore := s.datastore } =
        ids.foldl Records.drop s.records := by
      rw [← hfold, ← hstore]
      rfl
    rw [hsame]
    exact h
  | false =>
    rw [Datastore.commitOrKeep_of_accepting hrefusing]
    exact .removed ids hrefusing

theorem turn_answer {s : Service} (hwf : s.registry.WF) (session : Session) (r : Request)
    (h : (Action.request session r).establishes = true → creates) :
    Turn leaks creates s.records (s.answer session r).2.records := by
  cases r with
  | establish r => exact turn_establish s session r (h rfl)
  | modify r => exact turn_modify hwf session r
  | delete id =>
    show Turn _ _ _ (s.delete session id).2.records
    rcases s.delete_cases session id with ⟨e, he⟩ | ⟨sub, hfound, -, he⟩ <;> rw [he]
    · exact .of_eq rfl
    · exact turn_terminate hwf hfound _
  | kill id =>
    show Turn _ _ _ (s.kill id).2.records
    rcases s.kill_cases id with ⟨e, he⟩ | ⟨sub, hfound, he⟩ <;> rw [he]
    · exact .of_eq rfl
    · exact turn_terminate hwf hfound _

end

/-- Every action makes one turn of the records. -/
theorem step_turn {s : Service} (hwf : s.registry.WF) (a : Action) :
    Turn (a.tearsDown = true ∧ s.datastore.refusing = true) (a.establishes = true) s.records (s.step a).records := by
  cases a with
  | request session r => exact turn_answer hwf session r fun h => h
  | closeSession session => exact turn_closeSession s session fun h => ⟨rfl, h⟩
  | expire id => exact turn_complete hwf id fun h => ⟨rfl, h⟩
  | putFilter | removeFilter | setSchema | revalidate => exact .revised (revised_of_revises s rfl)
  | refuse refusing => exact .switched refusing
  | wait now => exact .of_eq rfl
  | _ => exact .of_eq (records_of_atRest (s.atRest_step rfl))

end Service

end YangSubscriptions
