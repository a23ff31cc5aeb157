import YangSubscriptions.Proofs.Service.Revalidation

/-!
# The catalog of filters

The named filters and the schema that they are valid under. Only what is put, removed or put in effect changes them: no
request does (`catalog_answer`), and no revalidation (`catalog_revalidate`). A filter that is in the catalog and valid is
all that a name stands for in an establish request (`establish_named`).
-/

namespace YangSubscriptions.Service

/-- The filters that have names, and the schema. -/
def catalog (s : Service) : Table String NamedFilter × Schema := (s.streams.filters, s.schema)

theorem catalog_of_atRest {s t : Service} (h : s.atRest = t.atRest) : s.catalog = t.catalog := by
  show s.atRest.catalog = t.atRest.catalog
  rw [h]

@[simp] theorem catalog_emit (s : Service) (sub : Subscription) (change : StateChange) :
    (s.emit sub change).catalog = s.catalog := catalog_of_atRest (atRest_emit s sub change)

/-! ## What leaves it alone -/

theorem catalog_resume (s : Service) (sub : Subscription) : (s.resume sub).catalog = s.catalog := by
  unfold resume
  split
  · rw [catalog_emit]
    rfl
  · rfl

theorem catalog_revalidateOne (s : Service) (id : SubscriptionId) : (s.revalidateOne id).catalog = s.catalog := by
  unfold revalidateOne
  split
  · rfl
  split
  · simp only
    split
    · rw [catalog_resume]
      rfl
    · rfl
  · split
    · split
      · rw [catalog_emit]
        rfl
      · rfl
    · rfl

/-- Resolving filters again does not touch the filters that are stored. -/
theorem catalog_revalidate (s : Service) : s.revalidate.catalog = s.catalog :=
  List.foldlRecOn (motive := fun t => t.catalog = s.catalog) s.registry.ids revalidateOne rfl fun t ht id _ =>
    (catalog_revalidateOne t id).trans ht

theorem catalog_establish (s : Service) (session : Session) (r : EstablishRequest) :
    (s.establish session r).2.catalog = s.catalog := by
  rcases s.establish_cases session r with ⟨e, he⟩ | ⟨request, revision, -, ⟨-, he⟩ | ⟨-, he⟩⟩
  · rw [he]
  · rw [he]
    rfl
  · rw [he, catalog_emit]
    rfl

theorem catalog_modify (s : Service) (session : Session) (r : ModifyRequest) :
    (s.modify session r).2.catalog = s.catalog := by
  rcases s.modify_cases session r with ⟨e, he⟩ | ⟨current, resolved, -, -, he⟩
  · rw [he]
  · have hmodified : (s.modified r resolved current).catalog = s.catalog := by
      rw [modified, catalog_emit]
      rfl
    rw [he]
    simp only
    split
    · rw [catalog_resume, hmodified]
    · exact hmodified

theorem catalog_terminate (s : Service) (sub : Subscription) (reason : TerminationReason) :
    (s.terminate sub reason).2.catalog = s.catalog := by
  unfold terminate
  split
  · split
    · rfl
    · rfl
    · split
      · rfl
      · simp only
        rw [catalog_emit]
        rfl
  · rfl

/-- No request does. -/
theorem catalog_answer (s : Service) (session : Session) (r : Request) : (s.answer session r).2.catalog = s.catalog := by
  cases r with
  | establish r => exact catalog_establish s session r
  | modify r => exact catalog_modify s session r
  | delete id =>
    show (s.delete session id).2.catalog = s.catalog
    rcases s.delete_cases session id with ⟨e, he⟩ | ⟨sub, -, -, he⟩
    · rw [he]
    · rw [he, catalog_terminate]
  | kill id =>
    show (s.kill id).2.catalog = s.catalog
    rcases s.kill_cases id with ⟨e, he⟩ | ⟨sub, -, he⟩
    · rw [he]
    · rw [he, catalog_terminate]

/-! ## What changes it -/

variable {s : Service} {name : String}

theorem resolve_of_lookUp {filter : Option StreamFilter} {resolved : ResolvedFilter}
    (hfound : s.streams.lookUp filter = .ok resolved) (hvalid : resolved.validate s.schema = .ok ()) :
    s.streams.resolve s.schema filter = .ok resolved := by
  rw [Streams.resolve, hfound]
  exact ok_of_bind rfl (by rw [hvalid]; rfl)

/-- A valid filter is stored under its name, and the others stay. -/
theorem putFilter_eq {f : StreamFilter} (hown : ∀ n, f ≠ .named n) (hvalid : f.resolved.validate s.schema = .ok ()) :
    s.putFilter name f =
      (.ok (!s.streams.filters.contains name),
        { s with streams := { s.streams with filters := s.streams.filters.insert name ⟨f, f.resolved⟩ } }.revalidate) := by
  have hstored : s.streams.putFilter s.schema name f = .ok (!s.streams.filters.contains name,
      { s.streams with filters := s.streams.filters.insert name ⟨f, f.resolved⟩ }) := by
    have hfound : s.streams.lookUp (some f) = .ok f.resolved := by
      cases f with
      | named n => exact absurd rfl (hown n)
      | _ => rfl
    unfold Streams.putFilter
    split
    · exact absurd rfl (hown _)
    · exact ok_of_bind (resolve_of_lookUp hfound hvalid) rfl
  rw [putFilter, hstored]

theorem filters_revalidate (s : Service) : s.revalidate.streams.filters = s.streams.filters :=
  congrArg Prod.fst (catalog_revalidate s)

theorem get?_putFilter_of_ne (f : StreamFilter) {k : String} (h : k ≠ name) :
    (s.putFilter name f).2.streams.filters.get? k = s.streams.filters.get? k := by
  unfold putFilter
  split
  · rename_i isNew streams hput
    rw [filters_revalidate]
    unfold Streams.putFilter at hput
    split at hput
    · cases hput
    · obtain ⟨resolved, -, hput⟩ := exists_ok_of_bind hput
      cases hput
      exact (Table.get?_insert ..).trans (if_neg (Ne.symm h))
  · rfl

/-- A filter that is stored is removed, and what depends on it is looked at again. -/
theorem removeFilter_eq (s : Service) (name : String) :
    s.removeFilter name =
      if s.streams.filters.contains name then
        (.ok (), { s with streams := { s.streams with filters := s.streams.filters.erase name } }.revalidate)
      else (.error (.unknownFilter name), s) := by
  unfold removeFilter Streams.removeFilter
  split
  · rename_i heq
    split at heq
    · rename_i hcontains
      cases heq
      rw [if_pos hcontains]
    · cases heq
  · rename_i heq
    split at heq
    · cases heq
    · rename_i hcontains
      rw [if_neg hcontains]

/-- The other names keep their filters. -/
theorem get?_removeFilter (s : Service) (name k : String) :
    (s.removeFilter name).2.streams.filters.get? k = if k = name then none else s.streams.filters.get? k := by
  rw [removeFilter_eq]
  split
  · rw [filters_revalidate]
    simp only [Table.get?_erase, eq_comm]
  · rename_i hcontains
    split
    · rename_i hk
      rw [hk]
      simpa [Table.contains] using hcontains
    · rfl

/-! ## What it is for -/

/-- Nothing but the filter can be in the way of the request. -/
structure Admits (s : Service) (r : EstablishRequest) (name : String) (revision : Option Instant) : Prop where
  stream : r.stream = some name
  known : s.streams.contains name = true
  times : s.checkTimes name r = .ok revision
  accepting : s.datastore.refusing = false

/-- A request that names a stored filter is granted, if all else is right. -/
theorem establish_named {r : EstablishRequest} {stream : String} {revision : Option Instant} {x : NamedFilter}
    (hadmits : s.Admits r stream revision) (hfilter : r.filter = some (.named name))
    (hstored : s.streams.filters.get? name = some x) (hvalid : x.resolved.validate s.schema = .ok ()) (session : Session) :
    (s.establish session r).1 = .ok ⟨s.registry.nextId, revision⟩ ∧
      ∃ sub, (s.establish session r).2.registry.lookup s.registry.nextId = some sub ∧ sub.resolved = x.resolved := by
  have hfound : s.streams.lookUp r.filter = .ok x.resolved := by
    rw [hfilter, Streams.lookUp, hstored]
  have hresolve := resolve_of_lookUp hfound hvalid
  have hcheck : ∃ request, s.checkEstablish session r = .ok (request, revision) ∧ request.stream = stream ∧
      request.resolved = x.resolved := by
    unfold checkEstablish
    simp only [hadmits.stream, hadmits.known]
    exact ⟨_, ok_of_bind hresolve (ok_of_bind hadmits.times rfl), rfl, rfl⟩
  obtain ⟨request, hcheck, hstream, hresolved⟩ := hcheck
  have hknown : s.streams.contains request.stream = true := hstream ▸ hadmits.known
  unfold establish
  simp only [hcheck, Registry.launch_eq, hknown, if_true, Datastore.commit_of_accepting hadmits.accepting]
  refine ⟨rfl, .launched s.registry.nextId request, ?_, hresolved⟩
  rw [lookup_emit]
  exact (Registry.lookup_enter ..).trans (if_pos rfl)

end YangSubscriptions.Service
