import YangSubscriptions.Proofs.Service.Rollback

/-!
# Filters that are current

Named filters and the schema change under the subscriptions that depend on them. `filters_current` states
that no subscription is left behind: after every action of a run in which schemas are watched, the filter
of each active subscription resolves, to the very filter that its record holds, and a subscription that
waits for its filter waits for one that does not resolve. So there is nothing left for a revalidation to
do. The invariant is `FiltersCurrent`; a revalidation establishes it from any well-formed registry
(`current_revalidate`), and the other operations only ever put in what they have just resolved.
-/

namespace YangSubscriptions

namespace Subscription

section
variable (resolve : Option StreamFilter → Except SubscriptionError ResolvedFilter)

/-- What becomes of a subscription when its filter is resolved again. -/
def revalidated (s : Subscription) : Subscription :=
  match resolve s.filter with
  | .ok resolved =>
    if s.suspension = some .filterUnavailable then { s with resolved, state := .active, suspension := none }
    else { s with resolved }
  | .error _ => if s.state = .active then { s with state := .suspended, suspension := some .filterUnavailable } else s

/-- The record holds what its filter resolves to, if it resolves, and is active or waiting accordingly. -/
structure Current (s : Subscription) : Prop where
  active : s.state = .active → ∃ resolved, resolve s.filter = .ok resolved
  resolved : ∀ resolved, resolve s.filter = .ok resolved → s.resolved = resolved
  unavailable : s.suspension = some .filterUnavailable → ∃ e, resolve s.filter = .error e

end

variable {resolve : Option StreamFilter → Except SubscriptionError ResolvedFilter} {s : Subscription}

/-- A record with a filter that was just resolved. -/
theorem Current.of_resolved (hresolved : resolve s.filter = .ok s.resolved)
    (hreason : s.suspension ≠ some .filterUnavailable) : s.Current resolve where
  active _ := ⟨s.resolved, hresolved⟩
  resolved r hr := by
    rw [hresolved] at hr
    exact Except.ok.inj hr
  unavailable h := absurd h hreason

theorem current_revalidated (resolve : Option StreamFilter → Except SubscriptionError ResolvedFilter)
    (s : Subscription) : (s.revalidated resolve).Current resolve := by
  unfold revalidated
  cases hresolve : resolve s.filter with
  | ok resolved =>
    simp only
    split
    · exact .of_resolved hresolve nofun
    · rename_i hreason
      exact .of_resolved hresolve hreason
  | error e =>
    simp only
    split
    · refine ⟨nofun, fun r hr => ?_, fun _ => ⟨e, hresolve⟩⟩
      have hr : resolve s.filter = .ok r := hr
      rw [hresolve] at hr
      cases hr
    · rename_i hactive
      refine ⟨fun h => absurd h hactive, fun r hr => ?_, fun _ => ⟨e, hresolve⟩⟩
      rw [hresolve] at hr
      cases hr

theorem Current.not_unavailable (h : s.Current resolve) {resolved : ResolvedFilter} (hok : resolve s.filter = .ok resolved) :
    s.suspension ≠ some .filterUnavailable := by
  intro hreason
  obtain ⟨e, he⟩ := h.unavailable hreason
  rw [hok] at he
  cases he

theorem Current.not_active (h : s.Current resolve) {e : SubscriptionError} (herror : resolve s.filter = .error e) :
    s.state ≠ .active := by
  intro hactive
  obtain ⟨r, hr⟩ := h.active hactive
  rw [herror] at hr
  cases hr

/-- Without its reason a record is as current as with it. -/
theorem Current.withoutReason (h : s.Current resolve) : s.withoutReason.Current resolve :=
  ⟨h.active, h.resolved, nofun⟩

end Subscription

namespace Service

open Subscription (Current)

/-- What a filter resolves to under the named filters and the schema of now. -/
def resolve (s : Service) : Option StreamFilter → Except SubscriptionError ResolvedFilter := s.streams.resolve s.schema

/-- Is the record of every subscription current? -/
def FiltersCurrent (s : Service) : Prop := ∀ id sub, s.registry.lookup id = some sub → sub.Current s.resolve

theorem resolve_of_atRest {s t : Service} (h : s.atRest = t.atRest) : s.resolve = t.resolve := by
  show s.atRest.resolve = t.atRest.resolve
  rw [h]

theorem lookup_of_atRest {s t : Service} (h : s.atRest = t.atRest) (id : SubscriptionId) :
    s.registry.lookup id = t.registry.lookup id := by
  show s.atRest.registry.lookup id = t.atRest.registry.lookup id
  rw [h]

@[simp] theorem resolve_emit (s : Service) (sub : Subscription) (change : StateChange) :
    (s.emit sub change).resolve = s.resolve := resolve_of_atRest (atRest_emit s sub change)

@[simp] theorem lookup_emit (s : Service) (sub : Subscription) (change : StateChange) (id : SubscriptionId) :
    (s.emit sub change).registry.lookup id = s.registry.lookup id := lookup_of_atRest (atRest_emit s sub change) id

/-- Other filters and another schema apart, records that are new or changed have to be current. -/
theorem FiltersCurrent.of_lookup {s t : Service} (h : s.FiltersCurrent) (hresolve : t.resolve = s.resolve)
    (hlookup : ∀ id sub, t.registry.lookup id = some sub →
      s.registry.lookup id = some sub ∨ sub.Current s.resolve) : t.FiltersCurrent := by
  intro id sub hfound
  rw [hresolve]
  rcases hlookup id sub hfound with hsame | hcurrent
  · exact h id sub hsame
  · exact hcurrent

theorem FiltersCurrent.of_atRest {s t : Service} (h : s.FiltersCurrent) (hrest : t.atRest = s.atRest) :
    t.FiltersCurrent :=
  h.of_lookup (resolve_of_atRest hrest) fun id _ hfound => .inl ((lookup_of_atRest hrest id).symm.trans hfound)

/-! ## Revalidation -/

/-- A suspended record is resumed. -/
theorem atRest_resume {s : Service} {sub sub' : Subscription} (hfound : s.registry.lookup sub.id = some sub')
    (hsuspended : sub'.state = .suspended) :
    (s.resume sub).atRest = { s with registry := s.registry.update sub.id Subscription.resumed }.atRest := by
  have hmove : s.registry.moveTo sub.id .active = .ok (sub'.state, s.registry.update sub.id Subscription.resumed) :=
    Registry.transition_eq_ok.2 ⟨sub', hfound, by rw [hsuspended]; rfl, rfl, rfl⟩
  unfold resume
  simp only [hmove]
  exact atRest_emit ..

/-- One record is resolved again, and that is all but for what is told. -/
theorem atRest_revalidateOne {s : Service} (hwf : s.registry.WF) (id : SubscriptionId) :
    (s.revalidateOne id).atRest =
      { s with registry := s.registry.update id (Subscription.revalidated s.resolve) }.atRest := by
  unfold revalidateOne
  cases hfound : s.registry.lookup id with
  | none =>
    have hsame : s.registry.update id (Subscription.revalidated s.resolve) = s.registry :=
      Registry.update_eq_self fun t ht => by rw [hfound] at ht; cases ht
    rw [hsame]
  | some sub =>
    obtain rfl : sub.id = id := hwf.keyed id sub hfound
    -- any change that does the same to this record is the revalidation
    have hupdate : ∀ f : Subscription → Subscription, f sub = sub.revalidated s.resolve →
        s.registry.update sub.id (Subscription.revalidated s.resolve) = s.registry.update sub.id f := by
      intro f hf
      refine Registry.update_congr fun t ht => ?_
      rw [hfound] at ht
      rw [← Option.some.inj ht, hf]
    simp only
    cases hresolve : s.streams.resolve s.schema sub.filter with
    | ok resolved =>
      by_cases hreason : sub.suspension = some .filterUnavailable
      · have hsuspended := (hwf.sound _ sub hfound).reason (by rw [hreason]; rfl)
        have hresolved : (s.registry.update sub.id fun r => { r with resolved }).lookup sub.id =
            some { sub with resolved } := by
          rw [Registry.lookup_update, if_pos rfl, hfound, Option.map_some]
        rw [hupdate (fun r => ({ r with resolved } : Subscription).resumed)
          (by simp only [Subscription.revalidated, resolve, hresolve, hreason, if_true]; rfl)]
        simp only [hreason, if_true]
        rw [atRest_resume (s := { s with registry := s.registry.update sub.id fun r => { r with resolved } })
          hresolved hsuspended]
        simp only [Registry.update_update]
      · rw [hupdate (fun r => { r with resolved })
          (by simp only [Subscription.revalidated, resolve, hresolve, hreason, if_false])]
        simp only [hreason, if_false]
    | error e =>
      by_cases hactive : sub.state = .active
      · have hsuspend : s.registry.suspend sub.id .filterUnavailable = .ok (sub.state, s.registry.update sub.id
            fun r => { r with state := .suspended, suspension := some .filterUnavailable }) :=
          Registry.transition_eq_ok.2 ⟨sub, hfound, by rw [hactive]; rfl, rfl, rfl⟩
        rw [hupdate (fun r => { r with state := .suspended, suspension := some .filterUnavailable })
          (by simp only [Subscription.revalidated, resolve, hresolve, hactive, if_true])]
        simp only [hactive, if_true, hsuspend]
        exact atRest_emit ..
      · rw [hupdate (fun r => r) (by simp only [Subscription.revalidated, resolve, hresolve, hactive, if_false])]
        rw [Registry.update_eq_self fun _ _ => rfl]
        simp only [hactive, if_false]

theorem resolve_revalidateOne {s : Service} (hwf : s.registry.WF) (id : SubscriptionId) :
    (s.revalidateOne id).resolve = s.resolve :=
  resolve_of_atRest (t := { s with registry := s.registry.update id (Subscription.revalidated s.resolve) })
    (atRest_revalidateOne hwf id)

theorem lookup_revalidateOne {s : Service} (hwf : s.registry.WF) (id k : SubscriptionId) :
    (s.revalidateOne id).registry.lookup k =
      if id = k then (s.registry.lookup k).map (Subscription.revalidated s.resolve) else s.registry.lookup k := by
  rw [lookup_of_atRest (atRest_revalidateOne hwf id)]
  exact Registry.lookup_update ..

theorem wf_revalidateOne {s : Service} (hwf : s.registry.WF) (id : SubscriptionId) :
    (s.revalidateOne id).registry.WF := by
  have hturn : Records.Turn False False s.records (s.revalidateOne id).records := .revised (revised_revalidateOne s id)
  exact Registry.wf_untallied.1 (hturn.wf (Registry.wf_untallied.2 hwf))

theorem foldl_revalidateOne {s : Service} (hwf : s.registry.WF) (ids : List SubscriptionId) (hnodup : ids.Nodup) :
    (ids.foldl revalidateOne s).resolve = s.resolve ∧
      ∀ k, (ids.foldl revalidateOne s).registry.lookup k =
        if k ∈ ids then (s.registry.lookup k).map (Subscription.revalidated s.resolve) else s.registry.lookup k := by
  induction ids generalizing s with
  | nil => exact ⟨rfl, fun k => by simp⟩
  | cons id ids ih =>
    obtain ⟨hnotin, hnodup⟩ := List.nodup_cons.1 hnodup
    obtain ⟨hresolve, hlookup⟩ := ih (wf_revalidateOne hwf id) hnodup
    rw [resolve_revalidateOne hwf] at hresolve hlookup
    refine ⟨hresolve, fun k => ?_⟩
    rw [List.foldl_cons, hlookup k, lookup_revalidateOne hwf]
    by_cases hid : id = k
    · subst hid
      simp [hnotin]
    · simp [hid, Ne.symm hid]

/-- Every record is resolved again. -/
theorem revalidate_spec {s : Service} (hwf : s.registry.WF) :
    s.revalidate.resolve = s.resolve ∧
      ∀ id, s.revalidate.registry.lookup id =
        (s.registry.lookup id).map (Subscription.revalidated s.resolve) := by
  obtain ⟨hresolve, hlookup⟩ := foldl_revalidateOne hwf s.registry.ids (Table.keys_nodup _)
  refine ⟨hresolve, fun id => (hlookup id).trans ?_⟩
  split
  · rfl
  · rename_i hid
    have hnone : s.registry.lookup id = none := by
      simpa [Registry.ids, Registry.lookup, Table.mem_keys_iff] using hid
    rw [hnone, Option.map_none]

/-- A revalidation makes every record current, however far behind it was. -/
theorem current_revalidate {s : Service} (hwf : s.registry.WF) : s.revalidate.FiltersCurrent := by
  obtain ⟨hresolve, hlookup⟩ := revalidate_spec hwf
  intro id sub hfound
  rw [hlookup, Option.map_eq_some_iff] at hfound
  obtain ⟨before, hbefore, rfl⟩ := hfound
  rw [hresolve]
  exact Subscription.current_revalidated s.resolve before

theorem revalidateOne_eq_self {s : Service} (h : s.FiltersCurrent) (id : SubscriptionId) : s.revalidateOne id = s := by
  unfold revalidateOne
  cases hfound : s.registry.lookup id with
  | none => rfl
  | some sub =>
    have hcurrent := h id sub hfound
    simp only
    cases hresolve : s.streams.resolve s.schema sub.filter with
    | ok resolved =>
      have hreason := hcurrent.not_unavailable hresolve
      have hrecord : { sub with resolved } = sub := by rw [← hcurrent.resolved resolved hresolve]
      have hsame : s.registry.update id (fun r => { r with resolved }) = s.registry := by
        refine Registry.update_eq_self fun t ht => ?_
        rw [hfound] at ht
        rw [← Option.some.inj ht, hrecord]
      simp only [hreason, if_false, hsame]
    | error e =>
      have hactive := hcurrent.not_active hresolve
      simp only [hactive, if_false]

/-- Where all is current there is nothing to do, and nobody is told anything. -/
theorem revalidate_eq_self {s : Service} (h : s.FiltersCurrent) : s.revalidate = s := by
  have hfoldl : ∀ ids : List SubscriptionId, ids.foldl revalidateOne s = s := by
    intro ids
    induction ids with
    | nil => rfl
    | cons id ids ih => rw [List.foldl_cons, revalidateOne_eq_self h, ih]
  exact hfoldl s.registry.ids

/-- A second revalidation changes nothing, whatever came before the first. -/
theorem revalidate_revalidate {s : Service} (hs : s.Reachable) : s.revalidate.revalidate = s.revalidate :=
  revalidate_eq_self (current_revalidate hs.wf)

/-! ## Requests -/

/-- One record was changed, into one that is current. -/
theorem FiltersCurrent.of_update {s t : Service} (h : s.FiltersCurrent) {id : SubscriptionId} {sub : Subscription}
    {f : Subscription → Subscription} (hfound : s.registry.lookup id = some sub) (hcurrent : (f sub).Current s.resolve)
    (hresolve : t.resolve = s.resolve) (hlookup : ∀ k, t.registry.lookup k = (s.registry.update id f).lookup k) :
    t.FiltersCurrent := by
  refine h.of_lookup hresolve fun k changed hk => ?_
  rw [hlookup, Registry.lookup_update] at hk
  split at hk
  · rename_i hid
    rw [← hid, hfound] at hk
    exact .inr (Option.some.inj hk ▸ hcurrent)
  · exact .inl hk

theorem current_establish {s : Service} (h : s.FiltersCurrent) (session : Session) (r : EstablishRequest) :
    (s.establish session r).2.FiltersCurrent := by
  rcases s.establish_cases session r with ⟨e, he⟩ | ⟨request, revision, hcheck, ⟨-, he⟩ | ⟨-, he⟩⟩
  · rw [he]
    exact h
  · rw [he]
    refine h.of_lookup rfl fun id sub hfound => ?_
    change Registry.lookup ((s.registry.enter _).leave _) id = some sub at hfound
    rw [Registry.lookup_leave, Registry.lookup_enter] at hfound
    split at hfound
    · cases hfound
    · exact .inl hfound
  · rw [he]
    refine h.of_lookup (resolve_emit ..) fun id sub hfound => ?_
    rw [lookup_emit] at hfound
    change (s.registry.enter _).lookup id = some sub at hfound
    rw [Registry.lookup_enter] at hfound
    split at hfound
    · have hnew : Subscription.launched s.registry.nextId request = sub := Option.some.inj hfound
      rw [← hnew]
      exact .inr (.of_resolved (resolve_of_checkEstablish hcheck) nofun)
    · exact .inl hfound

theorem current_modify {s : Service} (hwf : s.registry.WF) (h : s.FiltersCurrent) (session : Session)
    (r : ModifyRequest) : (s.modify session r).2.FiltersCurrent := by
  rcases s.modify_cases session r with ⟨e, he⟩ | ⟨current, resolved, hcheck, -, he⟩
  · rw [he]
    exact h
  · obtain ⟨hfound, -, -, hfilters⟩ := checkModify_eq_ok hcheck
    have hid : current.id = r.id := hwf.keyed r.id current hfound
    let t := s.modified r resolved current
    have hresolve : t.resolve = s.resolve := resolve_emit ..
    have hlookup : ∀ k, t.registry.lookup k = (s.registry.update r.id (r.change resolved)).lookup k := lookup_emit _ _ _
    rw [he]
    simp only
    rcases hfilters with ⟨hfilter, rfl⟩ | ⟨f, new, hfilter, rfl, hnew⟩
    · have hchanged : (r.change none current).Current s.resolve := by
        have hcurrent := h r.id current hfound
        refine ⟨?_, ?_, ?_⟩ <;> simp only [ModifyRequest.change, hfilter, Option.none_or, Option.getD_none]
        · exact hcurrent.active
        · exact hcurrent.resolved
        · exact hcurrent.unavailable
      rw [hfilter]
      exact h.of_update hfound hchanged hresolve hlookup
    · have hchanged : s.resolve (r.change (some new) current).filter = .ok (r.change (some new) current).resolved := by
        simp only [ModifyRequest.change, hfilter, Option.some_or, Option.getD_some]
        exact hnew
      simp only [hfilter, Option.isSome_some, Bool.true_and, decide_eq_true_eq]
      split
      · -- the filter that was waited for is there
        rename_i hreason
        have hsuspended : current.state = .suspended := (hwf.sound _ current hfound).reason (by
          rw [show current.suspension = _ from hreason]; rfl)
        have hupdatedId : (r.change (some new) current).id = r.id := hid
        have hupdated : t.registry.lookup (r.change (some new) current).id = some (r.change (some new) current) := by
          rw [hupdatedId, hlookup, Registry.lookup_update, if_pos rfl, hfound, Option.map_some]
        have hresumed := atRest_resume hupdated hsuspended
        have hagain : (r.change (some new) current).resumed.Current s.resolve := .of_resolved hchanged nofun
        refine h.of_update (f := fun c => (r.change (some new) c).resumed) hfound hagain ?_ fun k => ?_
        · rw [resolve_of_atRest hresumed]
          exact hresolve
        · have hboth := Registry.update_update s.registry r.id (r.change (some new)) Subscription.resumed
          rw [lookup_of_atRest hresumed, ← hboth, Registry.lookup_update, Registry.lookup_update, hlookup, hupdatedId]
      · rename_i hreason
        exact h.of_update hfound (.of_resolved hchanged hreason) hresolve hlookup

theorem current_leave {s t : Service} (h : s.FiltersCurrent) (sub : Subscription) (hresolve : t.resolve = s.resolve)
    (hlookup : ∀ id, t.registry.lookup id = (s.registry.leave sub).lookup id) : t.FiltersCurrent := by
  refine h.of_lookup hresolve fun id found hfound => ?_
  rw [hlookup, Registry.lookup_leave] at hfound
  split at hfound
  · cases hfound
  · exact .inl hfound

theorem current_terminate {s : Service} (hwf : s.registry.WF) (h : s.FiltersCurrent) {id : SubscriptionId}
    {sub : Subscription} (hfound : s.registry.lookup id = some sub) (reason : TerminationReason) :
    (s.terminate sub reason).2.FiltersCurrent := by
  obtain rfl : sub.id = id := hwf.keyed id sub hfound
  rw [terminate_eq hfound, if_pos (hwf.sound _ sub hfound).live]
  split
  · rw [Registry.reinstate_ended hfound (hwf.indexed _ sub hfound)]
    exact h.of_update hfound (h _ sub hfound).withoutReason rfl fun _ => rfl
  · exact current_leave h sub (resolve_emit ..) (lookup_emit _ _ _)

theorem current_complete {s : Service} (hwf : s.registry.WF) (h : s.FiltersCurrent) (id : SubscriptionId) :
    (s.complete id).FiltersCurrent := by
  cases hfound : s.registry.lookup id with
  | none =>
    rw [complete_of_lookup_none hfound]
    exact h
  | some sub =>
    obtain rfl : sub.id = id := hwf.keyed id sub hfound
    rw [complete_eq hfound (hwf.sound _ sub hfound).live]
    exact current_leave h sub (resolve_emit ..) (lookup_emit _ _ _)

theorem current_drop {s : Service} (h : s.FiltersCurrent) (id : SubscriptionId) : (s.drop id).FiltersCurrent := by
  cases hfound : s.registry.lookup id with
  | none =>
    rw [drop_of_lookup_none hfound]
    exact h
  | some sub =>
    let left : Service := { s with registry := s.registry.leave sub, deadlines := s.deadlines.erase id }
    have hdropped : (s.drop id).atRest = left.atRest := by
      rw [drop_eq hfound]
      exact atRest_detach left id
    have hresolve : (s.drop id).resolve = left.resolve := resolve_of_atRest hdropped
    exact current_leave h sub hresolve (lookup_of_atRest hdropped)

theorem current_closeSession {s : Service} (h : s.FiltersCurrent) (session : SessionId) :
    (s.closeSession session).2.FiltersCurrent := by
  have hdrops := foldl_drop_preserves (I := FiltersCurrent) (fun _ id ht => current_drop ht id)
    (s.registry.ofSession session) h
  exact hdrops

theorem current_answer {s : Service} (hwf : s.registry.WF) (h : s.FiltersCurrent) (session : Session) (r : Request) :
    (s.answer session r).2.FiltersCurrent := by
  cases r with
  | establish r => exact current_establish h session r
  | modify r => exact current_modify hwf h session r
  | delete id =>
    show (s.delete session id).2.FiltersCurrent
    rcases s.delete_cases session id with ⟨e, he⟩ | ⟨sub, hfound, -, he⟩ <;> rw [he]
    · exact h
    · exact current_terminate hwf h hfound _
  | kill id =>
    show (s.kill id).2.FiltersCurrent
    rcases s.kill_cases id with ⟨e, he⟩ | ⟨sub, hfound, he⟩ <;> rw [he]
    · exact h
    · exact current_terminate hwf h hfound _

/-! ## Runs -/

/-- Only a schema that nobody watches leaves filters behind. -/
theorem current_step {s : Service} (hwf : s.registry.WF) (h : s.FiltersCurrent) {a : Action}
    (hwatched : ∀ schema, a ≠ .setSchema schema false) : (s.step a).FiltersCurrent := by
  cases a with
  | request session r => exact current_answer hwf h session r
  | closeSession session => exact current_closeSession h session
  | expire id => exact current_complete hwf h id
  | putFilter name filter =>
    unfold step putFilter
    simp only
    split
    · exact current_revalidate hwf
    · exact h
  | removeFilter name =>
    unfold step removeFilter
    simp only
    split
    · exact current_revalidate hwf
    · exact h
  | setSchema schema watching =>
    cases watching with
    | true => exact current_revalidate hwf
    | false => exact absurd rfl (hwatched schema)
  | revalidate => exact current_revalidate hwf
  | refuse refusing => exact h
  | wait now => exact h
  | _ => exact h.of_atRest (s.atRest_step rfl)

/-- Is a schema that nobody watches followed at once by a revalidation? -/
def Watched : List Action → Prop
  | [] => True
  | .setSchema _ false :: .revalidate :: as => Watched as
  | .setSchema _ false :: _ => False
  | _ :: as => Watched as

theorem current_run {s : Service} (hwf : s.registry.WF) (h : s.FiltersCurrent) {as : List Action} (hwatched : Watched as) :
    (s.run as).FiltersCurrent := by
  induction as using Watched.induct generalizing s with
  | case1 => exact h
  | case2 schema as ih =>
    have hwf₁ := wf_step hwf (.setSchema schema false)
    exact ih (wf_step hwf₁ .revalidate) (current_revalidate hwf₁) hwatched
  | case3 schema as hnext => simp only [Watched] at hwatched
  | case4 a as hnext hother ih =>
    simp only [Watched] at hwatched
    exact ih (wf_step hwf a) (current_step hwf h hother) hwatched

/-- Whatever requests, sessions that close, stop-times, filters and schemas come in whatever order, and
whichever commits are refused: the filter of every active subscription resolves, to the filter that its
record holds; a subscription that waits for its filter waits for one that does not resolve; and a
revalidation changes nothing and tells nobody anything. Only a schema that is put in effect has to be
followed by a revalidation. -/
theorem filters_current (now : Instant) (schema : Schema) (configs : List StreamConfig) (as : List Action)
    (hwatched : Watched as) :
    let s := (start now schema configs).run as
    (∀ id sub, s.registry.lookup id = some sub →
      (sub.state = .active → s.streams.resolve s.schema sub.filter = .ok sub.resolved) ∧
      (sub.suspension = some .filterUnavailable → ∃ e, s.streams.resolve s.schema sub.filter = .error e)) ∧
    s.revalidate = s := by
  intro s
  have hcurrent : s.FiltersCurrent := current_run Registry.WF.empty (fun _ _ h => by cases h) hwatched
  refine ⟨fun id sub hfound => ⟨fun hactive => ?_, (hcurrent id sub hfound).unavailable⟩, revalidate_eq_self hcurrent⟩
  obtain ⟨resolved, hresolved⟩ := (hcurrent id sub hfound).active hactive
  rw [(hcurrent id sub hfound).resolved resolved hresolved]
  exact hresolved

/-- The filter that was removed is still missing when the subscription that waits for it is revalidated. -/
theorem filters_current_waitingForFilter :
    let s := (start ⟨0, 0⟩ .empty []).run (waitingForFilter ++ [.setSchema .empty false, .revalidate])
    ∃ sub, s.registry.lookup firstSubscriptionId = some sub ∧ sub.suspension = some .filterUnavailable ∧
      ∃ e, s.streams.resolve s.schema sub.filter = .error e := by
  intro s
  let sub : Subscription :=
    ⟨firstSubscriptionId, netconfStream, some (.named "alarms"), .subtree ⟨[]⟩, .json, none, none, ⟨1, "", none⟩,
      .suspended, some .filterUnavailable⟩
  have hfound : s.registry.lookup sub.id = some sub := by rfl
  have hcurrent := filters_current ⟨0, 0⟩ .empty [] (waitingForFilter ++ [.setSchema .empty false, .revalidate])
    (by simp only [waitingForFilter, List.cons_append, List.nil_append, Watched])
  exact ⟨sub, hfound, rfl, (hcurrent.1 sub.id sub hfound).2 rfl⟩

end Service

end YangSubscriptions
