import YangSubscriptions.Proofs.Service.Episodes
import Mathlib.Data.List.Induction

/-!
# The lifecycle in state changes

What a subscription is told of itself follows its lifecycle (`told_in_order`): that it started, then that it was
modified, suspended and resumed, the latter two in turn, and at last how it ended. The state machine in
`StateChange.leads` runs along the history of a subscription and stays with its registered state
(`Consistent`), which holds between episodes and thus after whatever operations they make up. Its runs have
the shape of the lifecycle (`shape_of_stateAfter`).
-/

namespace YangSubscriptions

namespace StateChange

/-- Does it suspend the subscription, or resume it? -/
def suspends? : StateChange → Option Bool
  | suspended _ _ => some true
  | resumed _ => some false
  | _ => none

/-- May it be told between the first and the last? -/
def isInterim : StateChange → Bool
  | modified _ | suspended _ _ | resumed _ => true
  | _ => false

/-- The state after these state changes, if they may be told in that order. -/
def stateAfter (cs : List StateChange) : Option SubscriptionState := cs.foldlM (fun s c => c.leads s) .start

theorem stateAfter_append (cs cs' : List StateChange) :
    stateAfter (cs ++ cs') = (stateAfter cs).bind fun s => cs'.foldlM (fun s c => c.leads s) s := by
  simp only [stateAfter, List.foldlM_append]
  rfl

theorem stateAfter_concat (cs : List StateChange) (c : StateChange) :
    stateAfter (cs ++ [c]) = (stateAfter cs).bind c.leads := by
  rw [stateAfter_append]
  refine Option.bind_congr fun s _ => ?_
  cases h : c.leads s <;> simp [List.foldlM, h]

/-- Nothing may be told after the end. -/
theorem eq_nil_of_ended {cs : List StateChange} {p : SubscriptionState}
    (h : cs.foldlM (fun s c => c.leads s) SubscriptionState.ended = some p) : cs = [] := by
  cases cs with
  | nil => rfl
  | cons c cs =>
    have hnone : c.leads .ended = none := by cases c <;> rfl
    rw [List.foldlM_cons, hnone] at h
    cases h

end StateChange

/-- Does every other one hold, the first one among them? -/
def Alternating (bs : List Bool) : Prop := ∀ i b, bs[i]? = some b → b = decide (i % 2 = 0)

namespace Alternating

theorem nil : Alternating [] := by
  intro i b h
  simp at h

theorem concat {bs : List Bool} (h : Alternating bs) {b : Bool} (hb : b = decide (bs.length % 2 = 0)) :
    Alternating (bs ++ [b]) := by
  intro i b' hi
  rcases Nat.lt_trichotomy i bs.length with hlt | heq | hgt
  · rw [List.getElem?_append_left hlt] at hi
    exact h i b' hi
  · subst heq
    simp at hi
    rw [← hi, hb]
  · rw [List.getElem?_append_right (by omega)] at hi
    have hnone : ([b] : List Bool)[i - bs.length]? = none := by
      rw [List.getElem?_eq_none]
      simp
      omega
    rw [hnone] at hi
    cases hi

/-- The last one holds exactly if there is an odd number of them. -/
theorem getLast?_eq_true {bs : List Bool} (h : Alternating bs) : bs.getLast? = some true ↔ bs.length % 2 = 1 := by
  rw [List.getLast?_eq_getElem?]
  constructor
  · intro hlast
    have heven := h _ _ hlast
    have hlength : bs.length - 1 < bs.length := (List.getElem?_eq_some_iff.1 hlast).1
    simp at heven
    omega
  · intro hodd
    have hlast : bs[bs.length - 1]? = some bs[bs.length - 1] := List.getElem?_eq_getElem (by omega)
    have heven : decide ((bs.length - 1) % 2 = 0) = true := by
      simp
      omega
    rw [hlast, h _ _ hlast, heven]

end Alternating

open StateChange (suspends? stateAfter)

/-- What is told first, then what is told while a subscription lives, and at most one last thing. -/
def FollowsLifecycle (cs : List StateChange) : Prop :=
  ∃ terms middle last, cs = .started terms :: middle ++ last ∧
    (∀ c ∈ middle, c.isInterim = true) ∧
    Alternating (middle.filterMap suspends?) ∧
    (last = [] ∨ ∃ c, last = [c] ∧ c.isTerminal = true)

/-- What may have been told of a subscription in each state. -/
inductive Shape : List StateChange → SubscriptionState → Prop where
  | start : Shape [] .start
  | live (terms : Terms) {middle : List StateChange} (interim : ∀ c ∈ middle, c.isInterim = true)
    (alternating : Alternating (middle.filterMap suspends?)) :
    Shape (.started terms :: middle) (if (middle.filterMap suspends?).length % 2 = 0 then .active else .suspended)
  | ended (terms : Terms) {middle : List StateChange} {c : StateChange} (interim : ∀ c ∈ middle, c.isInterim = true)
    (alternating : Alternating (middle.filterMap suspends?)) (terminal : c.isTerminal = true) :
    Shape (.started terms :: middle ++ [c]) .ended

namespace Shape

section
variable (terms : Terms) {middle : List StateChange} (interim : ∀ c ∈ middle, c.isInterim = true)
  (alternating : Alternating (middle.filterMap suspends?))
include interim alternating

/-- A state change that does not move between active and suspended. -/
theorem modified (new : Terms) :
    Shape (.started terms :: middle ++ [.modified new])
      (if (middle.filterMap suspends?).length % 2 = 0 then .active else .suspended) := by
  have hsame : (middle ++ [StateChange.modified new]).filterMap suspends? = middle.filterMap suspends? := by
    rw [List.filterMap_append]
    exact List.append_nil _
  have hinterim : ∀ c ∈ middle ++ [StateChange.modified new], c.isInterim = true :=
    List.forall_mem_append.2 ⟨interim, List.forall_mem_singleton.2 rfl⟩
  have hshape := Shape.live terms hinterim (by rwa [hsame])
  rwa [hsame] at hshape

/-- A state change from active to suspended or back. -/
theorem switched {c : StateChange} (hc : c.isInterim = true)
    (hswitch : suspends? c = some (decide ((middle.filterMap suspends?).length % 2 = 0))) :
    Shape (.started terms :: middle ++ [c])
      (if (middle.filterMap suspends?).length % 2 = 0 then .suspended else .active) := by
  have hmore : (middle ++ [c]).filterMap suspends? =
      middle.filterMap suspends? ++ [decide ((middle.filterMap suspends?).length % 2 = 0)] := by
    rw [List.filterMap_append]
    simp [hswitch]
  have hinterim : ∀ c' ∈ middle ++ [c], c'.isInterim = true :=
    List.forall_mem_append.2 ⟨interim, List.forall_mem_singleton.2 hc⟩
  have hshape := Shape.live terms hinterim (hmore ▸ alternating.concat rfl)
  rw [hmore, List.length_append, List.length_singleton] at hshape
  by_cases heven : (middle.filterMap suspends?).length % 2 = 0
  · rw [if_neg (by omega)] at hshape
    rwa [if_pos heven]
  · rw [if_pos (by omega)] at hshape
    rwa [if_neg heven]

end

/-- One more state change that leads to another state. -/
theorem concat {cs : List StateChange} {p q : SubscriptionState} (h : Shape cs p) {c : StateChange}
    (hleads : c.leads p = some q) : Shape (cs ++ [c]) q := by
  cases h with
  | start =>
    cases c with
    | started terms =>
      obtain rfl : SubscriptionState.active = q := Option.some.inj hleads
      exact @Shape.live terms [] nofun .nil
    | _ => cases hleads
  | @live terms middle interim alternating =>
    by_cases heven : (middle.filterMap suspends?).length % 2 = 0
    · rw [if_pos heven] at hleads
      cases c with
      | suspended id reason =>
        have hshape := switched terms interim alternating (c := .suspended id reason) rfl (by rw [heven]; rfl)
        rw [if_pos heven] at hshape
        exact Option.some.inj hleads ▸ hshape
      | modified new =>
        have hshape := modified terms interim alternating new
        rw [if_pos heven] at hshape
        exact Option.some.inj hleads ▸ hshape
      | terminated id reason => exact Option.some.inj hleads ▸ .ended terms interim alternating rfl
      | completed id => exact Option.some.inj hleads ▸ .ended terms interim alternating rfl
      | _ => cases hleads
    · rw [if_neg heven] at hleads
      cases c with
      | resumed id =>
        have hshape := switched terms interim alternating (c := .resumed id) rfl (by rw [decide_eq_false heven]; rfl)
        rw [if_neg heven] at hshape
        exact Option.some.inj hleads ▸ hshape
      | modified new =>
        have hshape := modified terms interim alternating new
        rw [if_neg heven] at hshape
        exact Option.some.inj hleads ▸ hshape
      | terminated id reason => exact Option.some.inj hleads ▸ .ended terms interim alternating rfl
      | completed id => exact Option.some.inj hleads ▸ .ended terms interim alternating rfl
      | _ => cases hleads
  | ended terms interim alternating terminal => cases c <;> cases hleads

theorem follows {cs : List StateChange} {p : SubscriptionState} (h : Shape cs p) (hne : cs ≠ []) :
    FollowsLifecycle cs := by
  cases h with
  | start => exact absurd rfl hne
  | @live terms middle interim alternating =>
    exact ⟨terms, middle, [], (List.append_nil _).symm, interim, alternating, .inl rfl⟩
  | @ended terms middle c interim alternating terminal =>
    exact ⟨terms, middle, [c], rfl, interim, alternating, .inr ⟨c, rfl, terminal⟩⟩

/-- A subscription is suspended when that was told last. -/
theorem suspended_iff {cs : List StateChange} {p : SubscriptionState} (h : Shape cs p) (hlive : p.isLive = true) :
    p = .suspended ↔ (cs.filterMap suspends?).getLast? = some true := by
  cases h with
  | start => cases hlive
  | @live terms middle interim alternating =>
    have hfirst : (StateChange.started terms :: middle).filterMap suspends? = middle.filterMap suspends? := rfl
    rw [hfirst, alternating.getLast?_eq_true]
    by_cases heven : (middle.filterMap suspends?).length % 2 = 0
    · simp [heven]
    · simp [heven]
      omega
  | ended => cases hlive

/-- What was told last is the end. -/
theorem ended_of_mem {cs : List StateChange} {p : SubscriptionState} (h : Shape cs p) {c : StateChange} (hc : c ∈ cs)
    (hterminal : c.isTerminal = true) : p = .ended := by
  have hinterim : ∀ c : StateChange, c.isInterim = true → c.isTerminal = false := by
    intro c hc
    cases c <;> first | rfl | cases hc
  cases h with
  | start => cases hc
  | @live terms middle interim alternating =>
    rcases List.mem_cons.1 hc with rfl | hc
    · cases hterminal
    · rw [hinterim c (interim c hc)] at hterminal
      cases hterminal
  | ended => rfl

end Shape

theorem StateChange.shape_of_stateAfter {cs : List StateChange} {p : SubscriptionState} (h : stateAfter cs = some p) :
    Shape cs p := by
  induction cs using List.reverseRecOn generalizing p with
  | nil =>
    obtain rfl : SubscriptionState.start = p := Option.some.inj h
    exact .start
  | append_singleton cs c ih =>
    rw [stateAfter_concat] at h
    obtain ⟨q, hq, hleads⟩ := Option.bind_eq_some_iff.1 h
    exact (ih hq).concat hleads

namespace Service

open Records (Allotted Given)

/-! ## The invariant -/

/-- What a subscription was told leads to its state, as long as it is registered. -/
def Consistent (id : SubscriptionId) (s : Service) : Prop :=
  ∃ p, stateAfter (s.history id) = some p ∧ (s.stateOf id = none ∨ s.stateOf id = some p)

theorem history_episode (id : SubscriptionId) {k : SubscriptionId} {change? : Option StateChange} {s t : Service}
    (h : Episode k change? s t) : t.history id = s.history id ++ if k = id then change?.toList else [] := by
  rw [history, h.journal, List.filter_append, history]
  congr 1
  cases change? with
  | none => simp
  | some c =>
    have hc := h.about c rfl
    subst hc
    simp [List.filter_cons]

/-- An episode keeps the history of an id and its state in step. -/
theorem Consistent.episode {id k : SubscriptionId} {change? : Option StateChange} {s t : Service}
    (h : Consistent id s) (hepisode : Episode k change? s t) : Consistent id t := by
  have hhistory := history_episode id hepisode
  obtain ⟨p, hp, hstate⟩ := h
  by_cases hid : k = id
  · subst hid
    rw [if_pos rfl] at hhistory
    cases change? with
    | none =>
      refine ⟨p, by rw [hhistory, Option.toList_none, List.append_nil, hp], ?_⟩
      rcases hepisode.silent rfl with hsame | hgone
      · rw [hsame]
        exact hstate
      · exact .inl hgone
    | some c =>
      obtain ⟨before, after, hbefore, hleads, hafter, hfirst⟩ := hepisode.told c rfl
      have hbefore' : p = before := by
        cases hlive : before.isLive with
        | true =>
          rw [hbefore, SubscriptionState.registered_of_live hlive] at hstate
          rcases hstate with hnone | hsome
          · cases hnone
          · exact (Option.some.inj hsome).symm
        | false =>
          -- only the start is told of what is not registered, and before it nothing was
          have hstart : before = .start := by
            cases before with
            | start => rfl
            | ended => cases c <;> cases hleads
            | _ => cases hlive
          rw [hfirst hstart] at hp
          rw [hstart]
          exact (Option.some.inj hp).symm
      refine ⟨after, ?_, ?_⟩
      · rw [hhistory, Option.toList_some, StateChange.stateAfter_concat, hp, hbefore', Option.bind_some, hleads]
      · rw [hafter]
        unfold SubscriptionState.registered
        split
        · exact .inr rfl
        · exact .inl rfl
  · rw [if_neg hid, List.append_nil] at hhistory
    refine ⟨p, by rw [hhistory, hp], ?_⟩
    rw [hepisode.others id (Ne.symm hid)]
    exact hstate

theorem Consistent.step {id : SubscriptionId} {s : Service} (h : Consistent id s) {a : Action} (ha : Unheard s a) :
    Consistent id (s.step a) := by
  cases hcarries : a.carries with
  | true =>
    obtain ⟨p, hp, hstate⟩ := h
    refine ⟨p, ?_, ?_⟩
    · rw [history_of_journal (journal_step s hcarries), hp]
    · rw [stateOf_step hcarries]
      exact hstate
  | false => exact (episodes_step ha hcarries).preserves (fun he hs => hs.episode he) h

/-! ## Fresh ids -/

theorem Handled.journal_forall {P : SubscriptionId → Prop} {s t : Service} (h : Handled P s t)
    (hs : ∀ c ∈ s.journal, P c.id) : ∀ c ∈ t.journal, P c.id := by
  induction h with
  | refl => exact hs
  | alter _ _ _ _ _ _ journal ih => exact journal ▸ ih
  | emit _ hid ih =>
    intro c hc
    rw [journal_emit] at hc
    rcases List.mem_append.1 hc with hc | hc
    · exact ih c hc
    · exact List.mem_singleton.1 hc ▸ hid
  | @detach t id _ ih => exact (journal_detach t id).symm ▸ ih

/-- The counter gave `n` ids, and nobody else is registered or was told of anything. -/
structure Heard (n : Nat) (s : Service) : Prop where
  wf : s.registry.WF
  allotted : s.records.Allotted n
  told : ∀ c ∈ s.journal, Given n c.id

theorem heard_start (now : Instant) (schema : Schema) (configs : List StreamConfig) :
    Heard 0 (start now schema configs) := ⟨Registry.WF.empty, allotted_start now schema configs, nofun⟩

namespace Heard

variable {n : Nat} {s : Service}

theorem step (h : Heard n s) (a : Action) :
    ∃ m, n ≤ m ∧ (m ≤ n + if a.establishes then 1 else 0) ∧ Heard m (s.step a) := by
  obtain ⟨m, hnm, hm, hallotted⟩ := allotted_step h.wf h.allotted a
  refine ⟨m, hnm, hm, wf_step h.wf a, hallotted, ?_⟩
  have hold : ∀ c ∈ s.journal, Given m c.id := fun c hc => (h.told c hc).mono hnm
  cases hcarries : a.carries with
  | true =>
    rw [journal_step s hcarries]
    exact hold
  | false =>
    cases hestablishes : a.establishes with
    | false =>
      have hregistered : Registered (Given m) s := by
        intro id sub hsub
        have hgiven : Given m id := (h.allotted.given id sub hsub).mono hnm
        exact ⟨hgiven, (h.wf.keyed id sub hsub).symm ▸ hgiven⟩
      exact (handled_step hregistered hcarries hestablishes).journal_forall hold
    | true =>
      obtain ⟨session, r, rfl⟩ := Action.exists_of_establishes hestablishes
      change (s.establish session r).2.records.Allotted m at hallotted
      show ∀ c ∈ (s.establish session r).2.journal, Given m c.id
      rcases s.establish_cases session r with ⟨e, he⟩ | ⟨request, revision, -, ⟨-, he⟩ | ⟨-, he⟩⟩
      · rw [he]
        exact hold
      · rw [he]
        exact hold
      · rw [he] at hallotted ⊢
        let sub := Subscription.launched s.registry.nextId request
        have hfound :
            ((s.established sub).emit sub (.started sub.terms)).records.registry.lookup sub.id = some sub := by
          rw [lookup_records, lookup_emit]
          exact (Registry.lookup_enter s.registry sub sub.id).trans (if_pos rfl)
        intro c hc
        rw [journal_emit] at hc
        rcases List.mem_append.1 hc with hc | hc
        · exact hold c hc
        · exact List.mem_singleton.1 hc ▸ hallotted.given sub.id sub hfound

/-- Nobody was told of an id that is given for the first time. -/
theorem unheard (h : Heard n s) {a : Action} (hcount : n + (if a.establishes then 1 else 0) ≤ UInt32.size) :
    Unheard s a := by
  refine ⟨⟨h.wf, fun hestablishes => ?_⟩, fun hestablishes => ?_⟩
  · rw [if_pos hestablishes] at hcount
    exact h.allotted.fresh (by omega)
  · rw [if_pos hestablishes] at hcount
    refine List.filter_eq_nil_iff.2 fun c hc => ?_
    have hgiven := h.told c hc
    have hnext : s.registry.nextId = firstSubscriptionId + UInt32.ofNat n := h.allotted.next
    rw [decide_eq_true_eq]
    intro he
    rw [he, hnext] at hgiven
    exact Records.not_given (by omega) hgiven

theorem run (h : Heard n s) (as : List Action) :
    ∃ m, n ≤ m ∧ m ≤ n + as.countP Action.establishes ∧ Heard m (s.run as) := by
  induction as generalizing s n with
  | nil => exact ⟨n, Nat.le_refl n, Nat.le_refl n, h⟩
  | cons a as ih =>
    obtain ⟨k, hnk, hk, hstepped⟩ := h.step a
    obtain ⟨m, hkm, hm, hrun⟩ := ih hstepped
    rw [List.countP_cons]
    exact ⟨m, by omega, by omega, hrun⟩

theorem throughout_unheard (h : Heard n s) {as : List Action}
    (hcount : n + as.countP Action.establishes ≤ UInt32.size) : Throughout Unheard s as := by
  induction as generalizing s n with
  | nil => trivial
  | cons a as ih =>
    rw [List.countP_cons] at hcount
    obtain ⟨k, -, hk, hstepped⟩ := h.step a
    exact ⟨h.unheard (by omega), ih hstepped (by omega)⟩

end Heard

/-! ## Runs -/

/-- Histories and states stay in step along a run of fresh ids. -/
theorem Consistent.run {id : SubscriptionId} {s : Service} (h : Consistent id s) {as : List Action}
    (has : Throughout Unheard s as) : Consistent id (s.run as) :=
  has.preserves (I := Consistent id) (fun _ _ hs ha => hs.step ha) h

theorem consistent_start (now : Instant) (schema : Schema) (configs : List StreamConfig) (id : SubscriptionId) :
    Consistent id (start now schema configs) := ⟨.start, rfl, .inl rfl⟩

/-- What was told is not taken back. -/
theorem history_begins {s : Service} {as : List Action} (has : Throughout Unheard s as) (id : SubscriptionId) :
    s.history id <+: (s.run as).history id := by
  have hjournal : s.journal <+: (s.run as).journal := by
    refine has.preserves (I := fun t => s.journal <+: t.journal) (fun t a hbegun ha => ?_) List.prefix_rfl
    cases hcarries : a.carries with
    | true =>
      rw [journal_step t hcarries]
      exact hbegun
    | false =>
      refine (episodes_step ha hcarries).preserves (I := fun t => s.journal <+: t.journal) ?_ hbegun
      intro t u k change? hepisode hbegun
      rw [hepisode.journal]
      exact hbegun.trans (List.prefix_append ..)
  exact hjournal.filter _

/-- A subscription that is established is told that it started. -/
theorem history_establish_ne_nil {s t : Service} {session : Session} {r : EstablishRequest} {reply : EstablishReply}
    (h : s.establish session r = (.ok reply, t)) : t.history reply.id ≠ [] := by
  rcases s.establish_cases session r with ⟨e, he⟩ | ⟨request, revision, -, ⟨-, he⟩ | ⟨-, he⟩⟩
  · rw [he, Prod.mk.injEq] at h
    cases h.1
  · rw [he, Prod.mk.injEq] at h
    cases h.1
  · rw [he, Prod.mk.injEq] at h
    obtain ⟨hreply, rfl⟩ := h
    let sub := Subscription.launched s.registry.nextId request
    have hid : (StateChange.started sub.terms).id = reply.id := congrArg EstablishReply.id (Except.ok.inj hreply)
    refine List.ne_nil_of_mem (a := .started sub.terms) (List.mem_filter.2 ⟨?_, decide_eq_true hid⟩)
    rw [journal_emit]
    exact List.mem_append_right _ List.mem_cons_self

namespace Consistent

variable {id : SubscriptionId} {s : Service}

theorem follows (h : Consistent id s) (hne : s.history id ≠ []) : FollowsLifecycle (s.history id) := by
  obtain ⟨p, hp, -⟩ := h
  exact (StateChange.shape_of_stateAfter hp).follows hne

theorem state (h : Consistent id s) {sub : Subscription} (hfound : s.registry.lookup id = some sub)
    (hlive : sub.state.isLive = true) :
    (sub.state = .active ∨ sub.state = .suspended) ∧
      (sub.state = .suspended ↔ ((s.history id).filterMap suspends?).getLast? = some true) := by
  obtain ⟨p, hp, hstate⟩ := h
  have hsame : sub.state = p := by
    rw [stateOf_of_lookup hfound] at hstate
    rcases hstate with hnone | hsome
    · cases hnone
    · exact Option.some.inj hsome
  refine ⟨?_, ?_⟩
  · cases hcase : sub.state with
    | active => exact .inl rfl
    | suspended => exact .inr rfl
    | _ =>
      rw [hcase] at hlive
      cases hlive
  · rw [hsame] at hlive ⊢
    exact (StateChange.shape_of_stateAfter hp).suspended_iff hlive

/-- Nothing is told after the end. -/
theorem history_of_ended (h : Consistent id s) {bs : List Action} (hbs : Throughout Unheard s bs)
    (hended : ∃ c ∈ s.history id, c.isTerminal = true) : (s.run bs).history id = s.history id := by
  obtain ⟨c, hc, hterminal⟩ := hended
  obtain ⟨q, hq, -⟩ := h.run hbs
  obtain ⟨p, hp, -⟩ := h
  obtain ⟨rest, hrest⟩ := history_begins hbs id
  obtain rfl := (StateChange.shape_of_stateAfter hp).ended_of_mem hc hterminal
  rw [← hrest, StateChange.stateAfter_append, hp, Option.bind_some] at hq
  rw [← hrest, StateChange.eq_nil_of_ended hq, List.append_nil]

end Consistent

/-- After every run in which no id comes round, whatever the requests of any sessions, refused commits, stop-times,
sessions that closed and changes of filters and schemas: each subscription that was established was told, whether or
not anyone listened, that it started; then that it was modified, suspended and resumed, the latter two in turn; and at
most one last thing, after which it is told nothing more. What is registered is active or suspended, and suspended
exactly if of the two that was told last. -/
theorem told_in_order (now : Instant) (schema : Schema) (configs : List StreamConfig) (as : List Action)
    (hcount : as.countP Action.establishes ≤ UInt32.size) :
    let s := (start now schema configs).run as
    (∀ before session r after reply t, as = before ++ .request session (.establish r) :: after →
      ((start now schema configs).run before).establish session r = (.ok reply, t) →
        FollowsLifecycle (s.history reply.id)) ∧
    (∀ id sub, s.registry.lookup id = some sub →
      (sub.state = .active ∨ sub.state = .suspended) ∧
      (sub.state = .suspended ↔ ((s.history id).filterMap suspends?).getLast? = some true)) ∧
    (∀ bs, as.countP Action.establishes + bs.countP Action.establishes ≤ UInt32.size → ∀ id,
      s.history id <+: (s.run bs).history id ∧
      ((∃ c ∈ s.history id, c.isTerminal = true) → (s.run bs).history id = s.history id)) := by
  intro s
  have hstart := heard_start now schema configs
  have hunheard : Throughout Unheard (start now schema configs) as := hstart.throughout_unheard (by omega)
  have hconsistent : ∀ id, Consistent id s := fun id => (consistent_start now schema configs id).run hunheard
  refine ⟨fun before session r after reply t has hreply => ?_, fun id sub hfound => ?_, fun bs hmore id => ?_⟩
  · refine (hconsistent reply.id).follows fun hnil => history_establish_ne_nil hreply ?_
    -- what was told when it was established is still there
    have hsplit : s = t.run after := by
      show (start now schema configs).run as = _
      rw [has, run_append, run_cons]
      exact congrArg (Service.run · after) (congrArg Prod.snd hreply)
    have hafter : Throughout Unheard t after := by
      obtain ⟨n, -, hn, hbefore⟩ := hstart.run before
      obtain ⟨m, -, hm, hestablished⟩ := hbefore.step (.request session (.establish r))
      rw [has, List.countP_append, List.countP_cons] at hcount
      have hstep : ((start now schema configs).run before).step (.request session (.establish r)) = t :=
        congrArg Prod.snd hreply
      rw [hstep] at hestablished
      exact hestablished.throughout_unheard (by omega)
    have hbegun := history_begins hafter reply.id
    rw [← hsplit, hnil] at hbegun
    exact List.prefix_nil.1 hbegun
  · have hwf : s.registry.WF := Reachable.wf ⟨now, schema, configs, as, rfl⟩
    exact (hconsistent id).state hfound (hwf.sound id sub hfound).live
  · obtain ⟨n, -, hn, hheard⟩ := hstart.run as
    have hbs : Throughout Unheard s bs := hheard.throughout_unheard (by omega)
    exact ⟨history_begins hbs id, (hconsistent id).history_of_ended hbs⟩

/-- A subscription that waits for its filter, gets it back and is ended. -/
theorem told_in_order_killedAfterResumption :
    let as : List Action := [.putFilter "alarms" (.subtree ⟨[]⟩),
      .request ⟨1, "", none⟩ (.establish ⟨some netconfStream, some (.named "alarms"), none, none, none⟩),
      .removeFilter "alarms", .putFilter "alarms" (.subtree ⟨[]⟩),
      .request ⟨2, "", none⟩ (.kill firstSubscriptionId)]
    let s := (start ⟨0, 0⟩ .empty []).run as
    FollowsLifecycle (s.history firstSubscriptionId) ∧
      (s.history firstSubscriptionId).map (·.name) =
        ["subscription-started", "subscription-suspended", "subscription-resumed", "subscription-terminated"] := by
  intro as s
  let r : EstablishRequest := ⟨some netconfStream, some (.named "alarms"), none, none, none⟩
  have htold := told_in_order ⟨0, 0⟩ .empty [] as (by decide)
  refine ⟨htold.1 [.putFilter "alarms" (.subtree ⟨[]⟩)] ⟨1, "", none⟩ r _ ⟨firstSubscriptionId, none⟩ _ rfl rfl, ?_⟩
  decide +kernel

end Service

end YangSubscriptions
