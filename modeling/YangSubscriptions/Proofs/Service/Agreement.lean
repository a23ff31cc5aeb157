import YangSubscriptions.Proofs.Service.Ids
import Mathlib.Data.List.Nodup

/-!
# Registry, datastore and deadlines

Three stores tell of the subscriptions of a service. `records_agree` states that they tell the same
after every action of a run. The invariant is `Agree`; it needs a well-formed registry and fresh ids,
because an id that came around while it is still registered would take the place of another record.
-/

namespace YangSubscriptions

namespace Records

variable {leaks creates : Prop} {r r' : Records}

/-! ## Agreement -/

/-- The datastore holds the records and nothing else, and the deadlines are their stop-times. -/
structure Agree (r : Records) : Prop where
  recorded : ∀ id, r.datastore.read (.subscription id) = (r.registry.lookup id).map Subscription.toJson
  only : ∀ path, (∀ id, path ≠ .subscription id) → r.datastore.read path = none
  timed : ∀ id, r.deadlines.get? id = (r.registry.lookup id).bind Subscription.stopTime

theorem get?_scheduled (t : Table SubscriptionId Instant) (id : SubscriptionId) (stop : Option Instant)
    (k : SubscriptionId) :
    (Service.scheduled t id stop).get? k = if id = k then stop.or (t.get? k) else t.get? k := by
  cases stop with
  | none => simp [Service.scheduled]
  | some t => simp [Service.scheduled, Table.get?_insert]

theorem timed_drop (hwf : r.registry.WF)
    (h : ∀ id, r.deadlines.get? id = (r.registry.lookup id).bind Subscription.stopTime)
    (id k : SubscriptionId) :
    (r.drop id).deadlines.get? k = ((r.drop id).registry.lookup k).bind Subscription.stopTime := by
  rw [lookup_drop hwf]
  cases hs : r.registry.lookup id with
  | none =>
    rw [drop_of_lookup_none hs, h]
    split
    · rename_i hk
      rw [← hk, hs]
    · rfl
  | some s =>
    rw [drop_eq hs, Table.get?_erase, h]
    split <;> rfl

theorem timed_foldl_drop (hwf : r.registry.WF)
    (h : ∀ id, r.deadlines.get? id = (r.registry.lookup id).bind Subscription.stopTime) (ids : List SubscriptionId)
    (k : SubscriptionId) :
    (ids.foldl drop r).deadlines.get? k = ((ids.foldl drop r).registry.lookup k).bind Subscription.stopTime := by
  induction ids generalizing r with
  | nil => exact h k
  | cons id ids ih => exact ih (wf_drop hwf id) (timed_drop hwf h id)

/-- Deleting records leaves what lies elsewhere. -/
theorem read_deletions (d : Datastore) (ids : List SubscriptionId) (path : DataPath) :
    ((ids.map fun id => Write.delete (.subscription id)).foldl Datastore.apply d).read path =
      if ∃ id ∈ ids, path.isBelow (.subscription id) then none else d.read path := by
  induction ids generalizing d with
  | nil => simp
  | cons id ids ih =>
    rw [List.map_cons, List.foldl_cons, ih, Datastore.read_delete]
    by_cases h : ∃ id ∈ ids, path.isBelow (.subscription id)
    · rw [if_pos h, if_pos]
      obtain ⟨k, hk, hbelow⟩ := h
      exact ⟨k, List.mem_cons_of_mem _ hk, hbelow⟩
    · rw [if_neg h]
      by_cases hid : path.isBelow (.subscription id) = true
      · rw [if_pos hid, if_pos ⟨id, List.mem_cons_self, hid⟩]
      · rw [if_neg hid, if_neg]
        rintro ⟨k, hk, hbelow⟩
        rcases List.mem_cons.1 hk with rfl | hk
        · exact hid hbelow
        · exact h ⟨k, hk, hbelow⟩

theorem Agree.revised (h : r.Agree) (hr : r.Revised r') : r'.Agree := by
  obtain ⟨g, hg, rfl⟩ := hr
  have hlookup : ∀ id, Registry.lookup { r.registry with subscriptions := r.registry.subscriptions.map g } id =
      (r.registry.lookup id).map (g id) := fun id => Table.get?_map ..
  constructor
  · intro id
    rw [hlookup, Option.map_map, h.recorded]
    exact Option.map_congr fun s _ => (Subscription.toJson_eq_of_terms (hg id s).1).symm
  · exact h.only
  · intro id
    rw [hlookup, h.timed, Option.bind_map]
    exact Option.bind_congr fun s _ => (Subscription.stopTime_eq_of_terms (hg id s).1).symm

/-- Another registry with the same records. -/
theorem Agree.of_lookup (h : r.Agree) {registry : Registry} (hlookup : ∀ id, registry.lookup id = r.registry.lookup id) :
    Agree { r with registry } := by
  refine ⟨fun id => ?_, h.only, fun id => ?_⟩
  · rw [hlookup]
    exact h.recorded id
  · rw [hlookup]
    exact h.timed id

/-- A record under a new id, written and timed. -/
theorem Agree.established (h : r.Agree) {s : Subscription} (hfresh : r.registry.lookup s.id = none)
    {registry : Registry} (hlookup : ∀ id, registry.lookup id = (r.registry.enter s).lookup id) :
    Agree
      { registry
        datastore := r.datastore.apply (.put (.subscription s.id) s.toJson)
        deadlines := Service.scheduled r.deadlines s.id s.stopTime } := by
  constructor
  · intro id
    rw [hlookup, Datastore.read_put_subscription, Registry.lookup_enter, h.recorded]
    split <;> rfl
  · intro path hpath
    rw [Datastore.read_put, if_neg (hpath _).symm, h.only path hpath]
  · intro id
    rw [hlookup, get?_scheduled, Registry.lookup_enter, h.timed]
    split
    · rename_i hs
      rw [← hs, hfresh]
      exact Option.or_none
    · rfl

/-- A changed record, written and timed anew. -/
theorem Agree.modified (h : r.Agree) {id : SubscriptionId} {s : Subscription} (hfound : r.registry.lookup id = some s)
    {f : Subscription → Subscription} {stop : Option Instant} (hstop : (f s).stopTime = stop.or s.stopTime) :
    Agree
      { registry := r.registry.update id f
        datastore := r.datastore.apply (.put (.subscription id) (f s).toJson)
        deadlines := Service.scheduled r.deadlines id stop } := by
  constructor
  · intro k
    rw [Datastore.read_put_subscription, Registry.lookup_update, h.recorded]
    split
    · rename_i hk
      rw [← hk, hfound]
      rfl
    · rfl
  · intro path hpath
    rw [Datastore.read_put, if_neg (hpath _).symm, h.only path hpath]
  · intro k
    rw [get?_scheduled, Registry.lookup_update, h.timed]
    split
    · rename_i hk
      rw [← hk, hfound]
      exact hstop.symm
    · rfl

/-- Records that are taken out everywhere. -/
theorem Agree.removed (h : r.Agree) (hwf : r.registry.WF) (ids : List SubscriptionId) :
    Agree { ids.foldl drop r with datastore := (r.deletions ids).foldl Datastore.apply r.datastore } := by
  have hread : ∀ path, ((r.deletions ids).foldl Datastore.apply r.datastore).read path =
      if ∃ id ∈ ids.filter fun id => (r.registry.lookup id).isSome, path.isBelow (.subscription id) then none
      else r.datastore.read path := read_deletions r.datastore _
  constructor
  · intro k
    rw [hread, lookup_foldl_drop hwf, h.recorded]
    simp only [DataPath.isBelow_subscription, exists_eq_right, List.mem_filter]
    cases r.registry.lookup k with
    | none => split <;> split <;> rfl
    | some s => by_cases hk : k ∈ ids <;> simp [hk]
  · intro path hpath
    rw [hread, h.only path hpath]
    split <;> rfl
  · exact timed_foldl_drop hwf h.timed ids

/-- The deadline of no record is gone. -/
theorem Agree.rang (h : r.Agree) {id : SubscriptionId} (habsent : r.registry.lookup id = none) :
    Agree { r with deadlines := r.deadlines.erase id } := by
  refine ⟨h.recorded, h.only, fun k => ?_⟩
  rw [Table.get?_erase]
  split
  · rename_i hk
    rw [← hk, habsent]
    rfl
  · exact h.timed k

theorem Turn.agree (hturn : Turn leaks creates r r') (hwf : r.registry.WF) (h : r.Agree) (hleaks : ¬ leaks)
    (hfresh : creates → r.registry.lookup r.registry.nextId = none) : r'.Agree := by
  cases hturn with
  | revised hr => exact h.revised hr
  | switched refusing => exact ⟨h.recorded, h.only, h.timed⟩
  | spent s hcreates hid =>
    refine h.of_lookup fun id => ?_
    show ((r.registry.enter s).leave s).lookup id = r.registry.lookup id
    rw [Registry.lookup_leave, Registry.lookup_enter]
    split
    · rename_i hs
      rw [← hs, hid, hfresh hcreates]
    · rfl
  | established s hcreates hid => exact h.established (hid ▸ hfresh hcreates) fun _ => rfl
  | modified id s f stop found keeps stopTime => exact h.modified found stopTime
  | removed ids => exact h.removed hwf ids
  | leaked ids hl => exact absurd hl hleaks
  | rang id absent => exact h.rang absent

theorem agree_start (refusing : Bool) : Agree ⟨.empty, ⟨.empty, refusing⟩, .empty⟩ :=
  ⟨fun _ => rfl, fun _ _ => rfl, fun _ => rfl⟩

/-- What the datastore holds, entry by entry. -/
theorem Agree.read_eq_some_iff (h : r.Agree) (path : DataPath) (value : Json) :
    r.datastore.read path = some value ↔
      ∃ id s, r.registry.lookup id = some s ∧ path = .subscription id ∧ value = s.toJson := by
  by_cases hpath : ∃ id, path = .subscription id
  · obtain ⟨id, rfl⟩ := hpath
    rw [h.recorded, Option.map_eq_some_iff]
    constructor
    · rintro ⟨s, hs, rfl⟩
      exact ⟨id, s, hs, rfl, rfl⟩
    · rintro ⟨k, s, hs, hid, rfl⟩
      rw [DataPath.subscription_injective hid]
      exact ⟨s, hs, rfl⟩
  · rw [h.only path fun id hid => hpath ⟨id, hid⟩]
    constructor
    · rintro ⟨⟩
    · rintro ⟨id, -, -, hid, -⟩
      exact absurd ⟨id, hid⟩ hpath

/-- One entry of the datastore for each record. -/
theorem Agree.size_eq (h : r.Agree) : r.datastore.size = r.registry.size := by
  have hmem : ∀ path, path ∈ r.datastore.tree.keys ↔ path ∈ r.registry.ids.map DataPath.subscription := by
    intro path
    rw [Table.mem_keys_iff, List.mem_map, Option.isSome_iff_exists]
    constructor
    · rintro ⟨value, hvalue⟩
      obtain ⟨id, s, hs, rfl, -⟩ := (h.read_eq_some_iff path value).1 hvalue
      exact ⟨id, (Table.mem_keys_iff _ _).2 (Option.isSome_iff_exists.2 ⟨s, hs⟩), rfl⟩
    · rintro ⟨id, hid, rfl⟩
      obtain ⟨s, hs⟩ := Option.isSome_iff_exists.1 ((Table.mem_keys_iff _ _).1 hid)
      exact ⟨s.toJson, (h.read_eq_some_iff _ _).2 ⟨id, s, hs, rfl, rfl⟩⟩
  have hnodup : (r.registry.ids.map DataPath.subscription).Nodup :=
    List.Nodup.map (fun _ _ => DataPath.subscription_injective) (Table.keys_nodup _)
  have hlength := ((List.perm_ext_iff_of_nodup (Table.keys_nodup _) hnodup).2 hmem).length_eq
  simp only [List.length_map, Registry.ids, Table.keys] at hlength
  exact hlength

end Records

namespace Service

open Records (Agree Allotted Turn)

/-- The parts of the invariant, over a run that gives at most `UInt32.size` ids in all. -/
theorem agree_run {s : Service} (hwf : s.records.registry.WF) {n : Nat} (hallotted : s.records.Allotted n)
    (hagree : s.records.Agree) {as : List Action} (hcount : n + as.countP Action.establishes ≤ UInt32.size)
    (hteardown : Throughout (fun s a => a.tearsDown = true → s.datastore.refusing = false) s as) :
    (s.run as).records.Agree := by
  have hfresh := throughout_fresh (Registry.wf_untallied.1 hwf) hallotted hcount
  refine (hfresh.and hteardown).preserves (I := fun s => s.records.Agree) (fun s a hagree h => ?_) hagree
  obtain ⟨hfresh, hteardown⟩ := h
  refine (step_turn hfresh.wf a).agree (Registry.wf_untallied.2 hfresh.wf) hagree ?_ hfresh.absent
  rintro ⟨htears, hrefusing⟩
  rw [hteardown htears] at hrefusing
  cases hrefusing

/-- Whatever requests, sessions that close, stop-times, filters and schemas come in whatever order, and
whichever commits are refused to requests: after each action the datastore has one entry for each
registered subscription, which is its record, and nothing else, and the deadlines are the stop-times of
the registered subscriptions. Only teardown needs its commits accepted, and no more ids may be given
than there are. -/
theorem records_agree (now : Instant) (schema : Schema) (configs : List StreamConfig) (as : List Action)
    (hcount : as.countP Action.establishes ≤ UInt32.size)
    (hteardown : Throughout (fun s a => a.tearsDown = true → s.datastore.refusing = false)
      (start now schema configs) as) :
    ∀ bs, bs <+: as →
      let s := (start now schema configs).run bs
      (∀ path value, s.datastore.read path = some value ↔
        ∃ id sub, s.registry.lookup id = some sub ∧ path = .subscription id ∧ value = sub.toJson) ∧
      s.datastore.size = s.registry.size ∧
      ∀ id t, s.deadlines.get? id = some t ↔ ∃ sub, s.registry.lookup id = some sub ∧ sub.stopTime = some t := by
  intro bs hbs s
  have hwf : (start now schema configs).records.registry.WF := Registry.wf_untallied.2 .empty
  have hallotted : (start now schema configs).records.Allotted 0 := ⟨rfl, fun _ _ h => by cases h⟩
  have hagree : (start now schema configs).records.Agree := Records.agree_start false
  have hcount' : 0 + bs.countP Action.establishes ≤ UInt32.size := by
    have := hbs.sublist.countP_le (p := Action.establishes)
    omega
  have h := agree_run hwf hallotted hagree hcount' (hteardown.of_prefix hbs)
  refine ⟨h.read_eq_some_iff, h.size_eq, fun id t => ?_⟩
  rw [show s.deadlines.get? id = _ from h.timed id, Option.bind_eq_some_iff]
  rfl

/-- A session asks for a subscription and puts its end off; while commits are refused it can neither end
it nor change it; then it closes. -/
def extendedThenClosed : List Action :=
  let session : Session := ⟨1, "", none⟩
  [.request session (.establish ⟨some netconfStream, none, none, some ⟨60, 0⟩, none⟩),
    .request session (.modify ⟨firstSubscriptionId, none, none, some ⟨90, 0⟩⟩),
    .refuse true,
    .request session (.delete firstSubscriptionId),
    .request session (.modify ⟨firstSubscriptionId, none, none, some ⟨99, 0⟩⟩),
    .refuse false,
    .closeSession 1]

/-- The deadline that is left after the refusals is that of the record. -/
theorem records_agree_extendedThenClosed :
    let s := (start ⟨0, 0⟩ .empty []).run (extendedThenClosed.take 5)
    ∃ sub, s.registry.lookup firstSubscriptionId = some sub ∧ sub.stopTime = some ⟨90, 0⟩ := by
  have h := records_agree ⟨0, 0⟩ .empty [] extendedThenClosed (by decide) (by decide +kernel) _ (List.take_prefix 5 _)
  exact (h.2.2 firstSubscriptionId ⟨90, 0⟩).1 (by decide +kernel)

end Service

end YangSubscriptions
