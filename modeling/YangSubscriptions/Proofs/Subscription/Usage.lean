import YangSubscriptions.Proofs.Subscription.Sessions
import Mathlib.Data.List.Nodup
import Mathlib.Data.List.Perm.Basic

/-!
# The registry in use

Any calls of the registry in any order: records are created, removed, put back in any state and as often as one
likes, moved and amended. `books_kept` says what they come to. Ids ascend, the index of the sessions is the inverse
of the records, states change along the table only, and a call that succeeds leaves the record that it should and
every other one alone (`Leaves`). Behind it stands that whatever is registered or was removed was created once, for
one session (`Usage.Knows`): so a record that is put back, even over another one, comes under the session that the
index already has for its id.
-/

namespace YangSubscriptions

/-- The table of the states. -/
inductive SubscriptionState.Step : SubscriptionState → SubscriptionState → Prop where
  | activate : Step start active
  | suspend : Step active suspended
  | resume : Step suspended active
  | cancel : Step start ended
  | finish : Step active ended
  | abandon : Step suspended ended

theorem SubscriptionState.canMoveTo_iff {s t : SubscriptionState} : s.canMoveTo t = true ↔ Step s t := by
  constructor
  · intro h
    cases s <;> cases t <;> first | constructor | cases h
  · rintro ⟨⟩ <;> rfl

/-- A change of what was asked for: filter, times and encoding. It leaves the record under its id, with its session
and in its state. -/
structure Amendment where
  apply : Subscription → Subscription
  id_apply : ∀ s, (apply s).id = s.id
  session_apply : ∀ s, (apply s).session = s.session
  state_apply : ∀ s, (apply s).state = s.state

namespace Registry

/-- Amends the record of an id. -/
def amend (r : Registry) (id : SubscriptionId) (a : Amendment) : Except SubscriptionError Registry :=
  match r.lookup id with
  | some _ => .ok (r.update id a.apply)
  | none => .error (.unknownSubscription id)

/-- The index holds the records by their sessions, all of them and nothing else. -/
structure Mirrored (r : Registry) : Prop where
  keyed : ∀ id s, r.lookup id = some s → s.id = id
  indexed : ∀ session id, (r.owned session).contains id = true ↔ ∃ s, r.lookup id = some s ∧ s.session.id = session
  nonempty : ∀ session, r.sessions.get? session ≠ some .empty

namespace Mirrored

variable {r : Registry}

theorem empty : Registry.empty.Mirrored where
  keyed _ _ h := by cases h
  indexed _ _ := ⟨nofun, fun ⟨_, h, _⟩ => by cases h⟩
  nonempty _ h := by cases h

/-- A record may be put in over another one of the same session. -/
theorem enter (h : r.Mirrored) {s : Subscription} (hsame : ∀ t, r.lookup s.id = some t → t.session.id = s.session.id) :
    (r.enter s).Mirrored := by
  refine ⟨fun id t ht => ?_, fun session id => ?_, nonempty_enter h.nonempty s⟩
  · rw [lookup_enter] at ht
    split at ht
    · rename_i hid
      rw [← Option.some.inj ht, hid]
    · exact h.keyed id t ht
  rw [owned_enter, lookup_enter]
  by_cases hid : s.id = id
  · subst hid
    by_cases hsession : s.session.id = session
    · simp [hsession, Table.contains_insert]
    · have hforeign : (r.owned session).contains s.id ≠ true := by
        intro hlisted
        obtain ⟨t, ht, htsession⟩ := (h.indexed session s.id).1 hlisted
        exact hsession ((hsame t ht).symm.trans htsession)
      simp [hsession, hforeign]
  · rw [if_neg hid, ← h.indexed session id]
    split
    · simp [Table.contains_insert, hid]
    · rfl

theorem leave (h : r.Mirrored) {s : Subscription} (hfound : r.lookup s.id = some s) : (r.leave s).Mirrored := by
  refine ⟨fun id t ht => ?_, fun session id => ?_, nonempty_leave h.nonempty s⟩
  · rw [lookup_leave] at ht
    split at ht
    · cases ht
    · exact h.keyed id t ht
  rw [owned_leave, lookup_leave]
  by_cases hid : s.id = id
  · subst hid
    by_cases hsession : s.session.id = session
    · simp [hsession, Table.contains_erase]
    · have hforeign : (r.owned session).contains s.id ≠ true := by
        intro hlisted
        obtain ⟨t, ht, htsession⟩ := (h.indexed session s.id).1 hlisted
        obtain rfl := Option.some.inj (hfound.symm.trans ht)
        exact hsession htsession
      simp [hsession, hforeign]
  · rw [if_neg hid, ← h.indexed session id]
    split
    · simp [Table.contains_erase, hid]
    · rfl

/-- Changes that keep ids and sessions. -/
theorem update (h : r.Mirrored) (k : SubscriptionId) {f : Subscription → Subscription} (hid : ∀ s, (f s).id = s.id)
    (hsession : ∀ s, (f s).session = s.session) : (r.update k f).Mirrored := by
  refine ⟨fun id t ht => ?_, fun session id => ?_, h.nonempty⟩
  · rw [lookup_update] at ht
    split at ht
    · obtain ⟨s, hs, rfl⟩ := Option.map_eq_some_iff.1 ht
      rw [hid, h.keyed id s hs]
    · exact h.keyed id t ht
  · show (r.owned session).contains id = true ↔ _
    rw [h.indexed session id, lookup_update]
    split
    · constructor
      · rintro ⟨s, hs, hown⟩
        exact ⟨f s, by rw [hs, Option.map_some], by rw [hsession, hown]⟩
      · rintro ⟨t, ht, hown⟩
        obtain ⟨s, hs, rfl⟩ := Option.map_eq_some_iff.1 ht
        exact ⟨s, hs, by rw [← hsession, hown]⟩
    · rfl

theorem mem_ofSession (h : r.Mirrored) {session : SessionId} {id : SubscriptionId} :
    id ∈ r.ofSession session ↔ ∃ s, r.lookup id = some s ∧ s.session.id = session := by
  rw [← h.indexed, ofSession, owned, Table.contains]
  cases r.sessions.get? session with
  | none => simp
  | some owned => simp [Table.mem_keys_iff]

/-- The sets of the sessions, one after another, are the ids. -/
theorem perm_ids (h : r.Mirrored) : (r.sessions.keys.flatMap r.ofSession).Perm r.ids := by
  have hnodup : ∀ session, (r.ofSession session).Nodup := by
    intro session
    rw [ofSession]
    cases r.sessions.get? session with
    | none => exact List.nodup_nil
    | some owned => exact owned.keys_nodup
  have hdisjoint : r.sessions.keys.Pairwise fun session session' =>
      (r.ofSession session).Disjoint (r.ofSession session') := by
    refine r.sessions.keys_nodup.imp fun hne id hid hid' => hne ?_
    obtain ⟨s, hs, rfl⟩ := h.mem_ofSession.1 hid
    obtain ⟨s', hs', rfl⟩ := h.mem_ofSession.1 hid'
    rw [Option.some.inj (hs.symm.trans hs')]
  refine (List.perm_ext_iff_of_nodup (List.nodup_flatMap.2 ⟨fun session _ => hnodup session, hdisjoint⟩)
    r.subscriptions.keys_nodup).2 fun id => ?_
  rw [List.mem_flatMap]
  constructor
  · rintro ⟨session, -, hid⟩
    obtain ⟨s, hs, -⟩ := h.mem_ofSession.1 hid
    exact (Table.mem_keys_iff ..).2 (Option.isSome_of_eq_some hs)
  · intro hid
    obtain ⟨s, hs⟩ := Option.isSome_iff_exists.1 ((Table.mem_keys_iff ..).1 hid)
    have hlisted := h.mem_ofSession.2 ⟨s, hs, rfl⟩
    refine ⟨s.session.id, (Table.mem_keys_iff ..).2 ?_, hlisted⟩
    rw [ofSession] at hlisted
    cases hset : r.sessions.get? s.session.id with
    | none =>
      rw [hset] at hlisted
      cases hlisted
    | some owned => rfl

end Mirrored

/-! ## Calls -/

/-- A call of the registry. A record that is put back is one that was removed before, by its number. -/
inductive Call where
  | create (streams : Streams) (request : SubscriptionRequest)
  | delete (id : SubscriptionId)
  | reinstate (n : Nat) (state : SubscriptionState)
  | moveTo (id : SubscriptionId) (target : SubscriptionState)
  | suspend (id : SubscriptionId) (reason : SuspensionReason)
  | update (id : SubscriptionId) (amendment : Amendment)

namespace Call

def creates : Call → Bool
  | create _ _ => true
  | _ => false

/-- Does it put a record back? -/
def restores : Call → Bool
  | reinstate _ _ => true
  | _ => false

end Call

/-- What a call answers. -/
inductive Reply where
  | created (s : Subscription)
  | removed (s : Subscription)
  | left (previous : SubscriptionState)
  | done

/-- A registry, with the records that it created and those that it removed, the latest last. -/
structure Usage where
  registry : Registry
  created : List Subscription
  removed : List Subscription

namespace Usage

def start : Usage := ⟨.empty, [], []⟩

def moved (u : Usage) : Except SubscriptionError (SubscriptionState × Registry) → Except SubscriptionError Reply × Usage
  | .ok (previous, registry) => (.ok (.left previous), { u with registry })
  | .error e => (.error e, u)

def call (u : Usage) : Call → Except SubscriptionError Reply × Usage
  | .create streams request =>
    match u.registry.create streams request with
    | .ok (s, registry) => (.ok (.created s), { u with registry, created := u.created ++ [s] })
    | .error e => (.error e, u)
  | .delete id =>
    match u.registry.delete id with
    | .ok (s, registry) => (.ok (.removed s), { u with registry, removed := u.removed ++ [s] })
    | .error e => (.error e, u)
  | .reinstate n state =>
    match u.removed[n]? with
    | some s => (.ok .done, { u with registry := u.registry.reinstate s state })
    | none => (.ok .done, u)
  | .moveTo id target => u.moved (u.registry.moveTo id target)
  | .suspend id reason => u.moved (u.registry.suspend id reason)
  | .update id amendment =>
    match u.registry.amend id amendment with
    | .ok registry => (.ok .done, { u with registry })
    | .error e => (.error e, u)

def run (u : Usage) (cs : List Call) : Usage := cs.foldl (fun u c => (u.call c).2) u

theorem run_append (u : Usage) (cs cs' : List Call) : u.run (cs ++ cs') = (u.run cs).run cs' := List.foldl_append ..

/-- The state of the record of an id. -/
def stateOf (u : Usage) (id : SubscriptionId) : Option SubscriptionState := (u.registry.lookup id).map (·.state)

/-- Is the record registered, or was it removed? -/
def Holds (u : Usage) (s : Subscription) : Prop := u.registry.lookup s.id = some s ∨ s ∈ u.removed

/-- Was the record created, under its id and for its session? -/
def Knows (u : Usage) (s : Subscription) : Prop := ∃ t ∈ u.created, t.id = s.id ∧ t.session = s.session

/-! ## What a call comes to -/

theorem call_create (u : Usage) {streams : Streams} {request : SubscriptionRequest}
    (h : streams.contains request.stream = true) :
    u.call (.create streams request) =
      let s := Subscription.new u.registry.nextId request
      (.ok (.created s),
        { u with
          registry := { u.registry.enter s with
            nextId := u.registry.nextId + 1, tallies := u.registry.tallies.insert u.registry.nextId ⟨0, 0⟩ }
          created := u.created ++ [s] }) := by
  simp only [call, Registry.create, h, if_true]

theorem call_delete {u : Usage} {id : SubscriptionId} {s : Subscription} (hs : u.registry.lookup id = some s) :
    u.call (.delete id) =
      (.ok (.removed s), { u with registry := u.registry.leave s, removed := u.removed ++ [s] }) := by
  simp only [call, Registry.delete, hs]

theorem call_reinstate {u : Usage} {n : Nat} {s : Subscription} (hs : u.removed[n]? = some s)
    (state : SubscriptionState) :
    u.call (.reinstate n state) = (.ok .done, { u with registry := u.registry.reinstate s state }) := by
  simp only [call, hs]

theorem call_update {u : Usage} {id : SubscriptionId} {s : Subscription} (hs : u.registry.lookup id = some s)
    (a : Amendment) :
    u.call (.update id a) = (.ok .done, { u with registry := u.registry.update id a.apply }) := by
  simp only [call, amend, hs]

/-- All that a call can do, guards and answers included. -/
inductive Outcome (u : Usage) : Call → Except SubscriptionError Reply → Usage → Prop where
  | refused (c : Call) (e : SubscriptionError) : Outcome u c (.error e) u
  | created (streams : Streams) (request : SubscriptionRequest) (s : Subscription)
    (he : s = .new u.registry.nextId request) :
    Outcome u (.create streams request) (.ok (.created s))
      { u with
        registry := { u.registry.enter s with
          nextId := u.registry.nextId + 1, tallies := u.registry.tallies.insert u.registry.nextId ⟨0, 0⟩ }
        created := u.created ++ [s] }
  | removed (id : SubscriptionId) (s : Subscription) (h : u.registry.lookup id = some s) :
    Outcome u (.delete id) (.ok (.removed s)) { u with registry := u.registry.leave s, removed := u.removed ++ [s] }
  | restored (n : Nat) (state : SubscriptionState) (s : Subscription) (h : s ∈ u.removed) :
    Outcome u (.reinstate n state) (.ok .done) { u with registry := u.registry.enter { s with state := state } }
  | absent (n : Nat) (state : SubscriptionState) : Outcome u (.reinstate n state) (.ok .done) u
  | moved (c : Call) (id : SubscriptionId) (target : SubscriptionState) (reason : Option SuspensionReason)
    (s : Subscription) (hc : c.restores = false) (h : u.registry.lookup id = some s)
    (hstep : SubscriptionState.Step s.state target) :
    Outcome u c (.ok (.left s.state))
      { u with registry := u.registry.update id fun s => { s with state := target, suspension := reason } }
  | amended (id : SubscriptionId) (a : Amendment) :
    Outcome u (.update id a) (.ok .done) { u with registry := u.registry.update id a.apply }

theorem moved_transition (u : Usage) (id : SubscriptionId) (target : SubscriptionState)
    (reason : Option SuspensionReason) {c : Call} (hc : c.restores = false) :
    Outcome u c (u.moved (u.registry.transition id target reason)).1
      (u.moved (u.registry.transition id target reason)).2 := by
  cases hmove : u.registry.transition id target reason with
  | error e => exact .refused c e
  | ok result =>
    obtain ⟨previous, registry⟩ := result
    obtain ⟨s, hs, hstep, rfl, rfl⟩ := transition_eq_ok.1 hmove
    exact .moved c id target reason s hc hs (SubscriptionState.canMoveTo_iff.1 hstep)

theorem outcome (u : Usage) (c : Call) : Outcome u c (u.call c).1 (u.call c).2 := by
  cases c with
  | create streams request =>
    by_cases hstream : streams.contains request.stream = true
    · rw [u.call_create hstream]
      exact .created streams request _ rfl
    · simp only [call, create, hstream]
      exact .refused _ _
  | delete id =>
    cases hs : u.registry.lookup id with
    | none =>
      simp only [call, delete, hs]
      exact .refused _ _
    | some s =>
      rw [call_delete hs]
      exact .removed id s hs
  | reinstate n state =>
    cases hs : u.removed[n]? with
    | none =>
      simp only [call, hs]
      exact .absent n state
    | some s =>
      rw [call_reinstate hs]
      exact .restored n state s (List.mem_of_getElem? hs)
  | moveTo id target => exact u.moved_transition id target none rfl
  | suspend id reason => exact u.moved_transition id .suspended (some reason) rfl
  | update id a =>
    cases hs : u.registry.lookup id with
    | none =>
      simp only [call, amend, hs]
      exact .refused _ _
    | some s =>
      rw [call_update hs]
      exact .amended id a

/-! ## What every call keeps -/

/-- The ids that were given, the records that are known by them, and an index that mirrors the records. -/
structure Kept (u : Usage) : Prop where
  next : u.registry.nextId = firstSubscriptionId + UInt32.ofNat u.created.length
  ascending : u.created.map (·.id.toNat) = List.range' firstSubscriptionId.toNat u.created.length
  known : ∀ s, u.Holds s → u.Knows s
  mirrored : u.registry.Mirrored

theorem kept_start : start.Kept where
  next := rfl
  ascending := rfl
  known s hs := by
    rcases hs with hs | hs <;> cases hs
  mirrored := .empty

/-- Another record of the same id and session is as well known. -/
theorem Knows.of_eq {u : Usage} {s s' : Subscription} (h : u.Knows s) (hid : s'.id = s.id)
    (hsession : s'.session = s.session) : u.Knows s' := by
  obtain ⟨t, ht, htid, htsession⟩ := h
  exact ⟨t, ht, htid.trans hid.symm, htsession.trans hsession.symm⟩

namespace Kept

variable {u : Usage}

theorem known_of_lookup (h : u.Kept) {id : SubscriptionId} {s : Subscription} (hs : u.registry.lookup id = some s) :
    u.Knows s := h.known s (.inl (h.mirrored.keyed id s hs ▸ hs))

/-- Among the records that were created an id occurs once. -/
theorem eq_of_id_eq (h : u.Kept) {s t : Subscription} (hs : s ∈ u.created) (ht : t ∈ u.created) (hid : s.id = t.id) :
    s = t := by
  have hnodup : (u.created.map (·.id.toNat)).Nodup := h.ascending ▸ List.nodup_range'
  exact List.inj_on_of_nodup_map hnodup hs ht (congrArg UInt32.toNat hid)

/-- So every id has one owner. -/
theorem session_eq (h : u.Kept) {s t : Subscription} (hs : u.Knows s) (ht : u.Knows t) (hid : s.id = t.id) :
    s.session = t.session := by
  obtain ⟨s', hs', hsid, hsession⟩ := hs
  obtain ⟨t', ht', htid, htsession⟩ := ht
  rw [← hsession, ← htsession, h.eq_of_id_eq hs' ht' (hsid.trans (hid.trans htid.symm))]

theorem lt_of_mem (h : u.Kept) {t : Subscription} (ht : t ∈ u.created) :
    t.id.toNat < firstSubscriptionId.toNat + u.created.length := by
  have hmem : t.id.toNat ∈ u.created.map (·.id.toNat) := List.mem_map_of_mem ht
  rw [h.ascending, List.mem_range'_1] at hmem
  exact hmem.2

theorem toNat_nextId (h : u.Kept) (hlen : u.created.length < 2147483648) :
    u.registry.nextId.toNat = firstSubscriptionId.toNat + u.created.length := by
  have hfirst : firstSubscriptionId.toNat = 2147483648 := rfl
  have hlen' : (UInt32.ofNat u.created.length).toNat = u.created.length :=
    UInt32.toNat_ofNat_of_lt' (Nat.lt_trans hlen (by decide))
  rw [h.next, UInt32.toNat_add, hlen', hfirst, Nat.mod_eq_of_lt (by omega)]

theorem ne_nextId (h : u.Kept) (hlen : u.created.length < 2147483648) {s : Subscription} (hs : u.Knows s) :
    s.id ≠ u.registry.nextId := by
  obtain ⟨t, ht, htid, -⟩ := hs
  intro hid
  have hlt := h.lt_of_mem ht
  rw [htid, hid, h.toNat_nextId hlen] at hlt
  exact Nat.lt_irrefl _ hlt

theorem fresh (h : u.Kept) (hlen : u.created.length < 2147483648) : u.registry.lookup u.registry.nextId = none := by
  cases hs : u.registry.lookup u.registry.nextId with
  | none => rfl
  | some s => exact absurd (h.mirrored.keyed _ s hs) (h.ne_nextId hlen (h.known_of_lookup hs))

/-- Changes of records that keep ids and sessions. -/
theorem update (h : u.Kept) (k : SubscriptionId) {f : Subscription → Subscription} (hid : ∀ s, (f s).id = s.id)
    (hsession : ∀ s, (f s).session = s.session) : Kept { u with registry := u.registry.update k f } := by
  refine ⟨h.next, h.ascending, fun s hs => ?_, h.mirrored.update k hid hsession⟩
  rcases hs with hs | hs
  · rw [lookup_update] at hs
    split at hs
    · obtain ⟨s', hs', rfl⟩ := Option.map_eq_some_iff.1 hs
      exact (h.known_of_lookup hs').of_eq (hid s') (hsession s')
    · exact h.known_of_lookup hs
  · exact h.known s (.inr hs)

/-- A new record takes the next id. -/
theorem create (h : u.Kept) (hlen : u.created.length < 2147483648) {s : Subscription} (hid : s.id = u.registry.nextId) :
    Kept { u with
      registry := { u.registry.enter s with
        nextId := u.registry.nextId + 1, tallies := u.registry.tallies.insert u.registry.nextId ⟨0, 0⟩ }
      created := u.created ++ [s] } := by
  have hfresh : u.registry.lookup s.id = none := hid ▸ h.fresh hlen
  have hentered : (u.registry.enter s).Mirrored := h.mirrored.enter fun t ht => by
    rw [hfresh] at ht
    cases ht
  have hknows : ∀ t, u.Knows t → ∃ t' ∈ u.created ++ [s], t'.id = t.id ∧ t'.session = t.session := by
    rintro t ⟨t', ht', hboth⟩
    exact ⟨t', List.mem_append_left _ ht', hboth⟩
  refine ⟨?_, ?_, fun t ht => ?_, ⟨hentered.keyed, hentered.indexed, hentered.nonempty⟩⟩
  · show u.registry.nextId + 1 = _
    rw [h.next, List.length_append, List.length_singleton, UInt32.ofNat_add, UInt32.add_assoc]
    rfl
  · show (u.created ++ [s]).map (·.id.toNat) = List.range' _ (u.created ++ [s]).length
    rw [List.map_append, h.ascending, List.length_append, List.length_singleton, List.range'_1_concat,
      List.map_singleton, hid, h.toNat_nextId hlen]
  · rcases ht with ht | ht
    · change (u.registry.enter s).lookup t.id = some t at ht
      rw [lookup_enter] at ht
      split at ht
      · obtain rfl := Option.some.inj ht
        exact ⟨s, List.mem_append_right _ List.mem_cons_self, rfl, rfl⟩
      · exact hknows t (h.known_of_lookup ht)
    · exact hknows t (h.known t (.inr ht))

theorem delete (h : u.Kept) {id : SubscriptionId} {s : Subscription} (hs : u.registry.lookup id = some s) :
    Kept { u with registry := u.registry.leave s, removed := u.removed ++ [s] } := by
  have hid := h.mirrored.keyed id s hs
  refine ⟨h.next, h.ascending, fun t ht => ?_, h.mirrored.leave (hid ▸ hs)⟩
  rcases ht with ht | ht
  · change (u.registry.leave s).lookup t.id = some t at ht
    rw [lookup_leave] at ht
    split at ht
    · cases ht
    · exact h.known_of_lookup ht
  · rcases List.mem_append.1 ht with ht | ht
    · exact h.known t (.inr ht)
    · rw [List.mem_singleton.1 ht]
      exact h.known_of_lookup hs

/-- A record that is put back finds none of another session under its id. -/
theorem restore (h : u.Kept) {s : Subscription} (hs : s ∈ u.removed) (state : SubscriptionState) :
    Kept { u with registry := u.registry.enter { s with state := state } } := by
  have hknown : u.Knows { s with state := state } := (h.known s (.inr hs)).of_eq rfl rfl
  refine ⟨h.next, h.ascending, fun t ht => ?_, h.mirrored.enter fun t ht => ?_⟩
  · rcases ht with ht | ht
    · change (u.registry.enter { s with state := state }).lookup t.id = some t at ht
      rw [lookup_enter] at ht
      split at ht
      · exact Option.some.inj ht ▸ hknown
      · exact h.known_of_lookup ht
    · exact h.known t (.inr ht)
  · exact congrArg Session.id (h.session_eq (h.known_of_lookup ht) hknown (h.mirrored.keyed _ t ht))

/-- What is kept is kept by every call, as long as there are ids. -/
theorem outcome (h : u.Kept) {c : Call} {reply : Except SubscriptionError Reply} {u' : Usage}
    (ho : Outcome u c reply u') (hroom : c.creates = true → u.created.length < 2147483648) : u'.Kept := by
  cases ho with
  | refused c e => exact h
  | created streams request s hs => exact h.create (hroom rfl) (hs ▸ rfl)
  | removed id s hs => exact h.delete hs
  | restored n state s hs => exact h.restore hs state
  | absent n state => exact h
  | moved c id target reason s _ _ _ => exact h.update id (fun _ => rfl) fun _ => rfl
  | amended id a => exact h.update id a.id_apply a.session_apply

end Kept

namespace Outcome

variable {u u' : Usage} {c : Call} {reply : Except SubscriptionError Reply}

/-- What was created stays on record; only a creation adds to it. -/
theorem created_eq (h : Outcome u c reply u') :
    ∃ new, u'.created = u.created ++ new ∧ new.length ≤ if c.creates then 1 else 0 := by
  cases h with
  | created streams request s hs => exact ⟨[s], rfl, Nat.le_refl 1⟩
  | _ => exact ⟨[], (List.append_nil _).symm, Nat.zero_le _⟩

/-- Unless a record is put back, a state that changes moves along the table. -/
theorem state_step (h : Outcome u c reply u') (hu : u.Kept) (hroom : u.created.length < 2147483648)
    (hc : c.restores = false) {id : SubscriptionId} {s t : SubscriptionState} (hs : u.stateOf id = some s)
    (ht : u'.stateOf id = some t) : t = s ∨ s.Step t := by
  obtain ⟨before, hbefore, rfl⟩ := Option.map_eq_some_iff.1 hs
  obtain ⟨after, hafter, rfl⟩ := Option.map_eq_some_iff.1 ht
  have hunchanged : u'.registry.lookup id = u.registry.lookup id → after.state = before.state := by
    intro hsame
    rw [hafter, hbefore] at hsame
    rw [Option.some.inj hsame]
  cases h with
  | refused c e => exact .inl (hunchanged rfl)
  | created streams request new hnew =>
    refine .inl (hunchanged ?_)
    show (u.registry.enter new).lookup id = _
    rw [lookup_enter, if_neg]
    rintro rfl
    exact hu.ne_nextId hroom (hu.known_of_lookup hbefore) (by rw [hu.mirrored.keyed _ _ hbefore, hnew]; rfl)
  | removed k gone hgone =>
    change (u.registry.leave gone).lookup id = some after at hafter
    rw [lookup_leave] at hafter
    split at hafter
    · cases hafter
    · exact .inl (by rw [Option.some.inj (hafter.symm.trans hbefore)])
  | restored n state s hs => cases hc
  | absent n state => cases hc
  | moved c k target reason found _ hfound hstep =>
    change (u.registry.update k _).lookup id = some after at hafter
    rw [lookup_update] at hafter
    split at hafter
    · rename_i hk
      rw [hbefore, Option.map_some] at hafter
      obtain rfl := Option.some.inj ((hk ▸ hfound).symm.trans hbefore)
      rw [← Option.some.inj hafter]
      exact .inr hstep
    · exact .inl (by rw [Option.some.inj (hafter.symm.trans hbefore)])
  | amended k a =>
    change (u.registry.update k _).lookup id = some after at hafter
    rw [lookup_update] at hafter
    split at hafter
    · rw [hbefore, Option.map_some] at hafter
      rw [← Option.some.inj hafter]
      exact .inl (a.state_apply before)
    · exact .inl (by rw [Option.some.inj (hafter.symm.trans hbefore)])

end Outcome

/-! ## Runs -/

/-- A run keeps what every call keeps, and creates at most a record a call. -/
theorem kept_run {u : Usage} (h : u.Kept) (cs : List Call)
    (hlen : u.created.length + cs.countP Call.creates ≤ 2147483648) :
    (u.run cs).Kept ∧ (u.run cs).created.length ≤ u.created.length + cs.countP Call.creates := by
  induction cs generalizing u with
  | nil => exact ⟨h, Nat.le_refl _⟩
  | cons c cs ih =>
    obtain ⟨new, hnew, hcount⟩ := (u.outcome c).created_eq
    rw [List.countP_cons] at hlen ⊢
    have hlength : (u.call c).2.created.length ≤ u.created.length + if c.creates then 1 else 0 := by
      rw [hnew, List.length_append]
      exact Nat.add_le_add_left hcount _
    have hkept : (u.call c).2.Kept := by
      refine h.outcome (u.outcome c) fun hc => ?_
      rw [if_pos hc] at hlen
      omega
    obtain ⟨hrun, hle⟩ := ih hkept (by omega)
    exact ⟨hrun, Nat.le_trans hle (by omega)⟩

theorem mem_created_run {u : Usage} {s : Subscription} (hs : s ∈ u.created) (cs : List Call) :
    s ∈ (u.run cs).created := by
  induction cs generalizing u with
  | nil => exact hs
  | cons c cs ih =>
    obtain ⟨new, hnew, -⟩ := (u.outcome c).created_eq
    exact ih (u := (u.call c).2) (hnew ▸ List.mem_append_left new hs)

/-- What is known stays known. -/
theorem Knows.run {u : Usage} {s : Subscription} (h : u.Knows s) (cs : List Call) : (u.run cs).Knows s := by
  obtain ⟨t, ht, hboth⟩ := h
  exact ⟨t, mem_created_run ht cs, hboth⟩

/-! ## The books -/

/-- After the call the id has that record, and every other id has the record that it had. -/
def Leaves (u : Usage) (c : Call) (id : SubscriptionId) (record : Option Subscription) : Prop :=
  ∀ k, (u.call c).2.registry.lookup k = if id = k then record else u.registry.lookup k

/-- What the books of a registry say, whatever call comes next. -/
structure WellKept (u : Usage) : Prop where
  /-- The ids that were given are those from the first one on, in this order. -/
  ascending : u.created.map (·.id.toNat) = List.range' firstSubscriptionId.toNat u.created.length
  /-- A new id is above all of them, and no record has it, neither registered nor removed. -/
  fresh : ∀ streams request s, (u.call (.create streams request)).1 = .ok (.created s) →
    (∀ t ∈ u.created, t.id < s.id) ∧ ∀ t, u.Holds t → t.id ≠ s.id
  /-- A subscription to a stream that is there is created. -/
  creations : ∀ streams request, (∃ s, (u.call (.create streams request)).1 = .ok (.created s)) ↔
    streams.contains request.stream = true
  created : ∀ streams request s, (u.call (.create streams request)).1 = .ok (.created s) →
    s.state = .start ∧ s.session = request.session ∧ u.Leaves (.create streams request) s.id (some s)
  deletions : ∀ id s, (u.call (.delete id)).1 = .ok (.removed s) ↔ u.registry.lookup id = some s
  deleted : ∀ id s, u.registry.lookup id = some s →
    u.Leaves (.delete id) id none ∧ s ∈ (u.call (.delete id)).2.removed
  /-- What is put back is the record as it was removed, in the state that is asked for. -/
  restored : ∀ n state s, u.removed[n]? = some s →
    u.Leaves (.reinstate n state) s.id (some { s with state := state })
  keyed : ∀ id s, u.registry.lookup id = some s → s.id = id
  /-- The index is the inverse of the records. -/
  indexed : ∀ session id,
    id ∈ u.registry.ofSession session ↔ ∃ s, u.registry.lookup id = some s ∧ s.session.id = session
  nonempty : ∀ session, u.registry.sessions.get? session ≠ some .empty
  partitioned : (u.registry.sessions.keys.flatMap u.registry.ofSession).Perm u.registry.ids
  /-- A move is a step of the table from the state that is left, and every such step can be made. -/
  moves : ∀ id target previous, (u.call (.moveTo id target)).1 = .ok (.left previous) ↔
    u.stateOf id = some previous ∧ previous.Step target
  /-- It ends in the target, without a reason, and leaves every other record alone. -/
  moved : ∀ id target s, u.registry.lookup id = some s → s.state.Step target →
    u.Leaves (.moveTo id target) id (some { s with state := target, suspension := none })
  suspensions : ∀ id reason previous, (u.call (.suspend id reason)).1 = .ok (.left previous) ↔
    u.stateOf id = some previous ∧ previous.Step .suspended
  suspended : ∀ id reason s, u.registry.lookup id = some s → s.state.Step .suspended →
    u.Leaves (.suspend id reason) id (some { s with state := .suspended, suspension := some reason })
  /-- An amendment is made of every record that is there. -/
  amended : ∀ id (a : Amendment) s, u.registry.lookup id = some s →
    (u.call (.update id a)).1 = .ok .done ∧ u.Leaves (.update id a) id (some (a.apply s))
  /-- No call but the one that puts a record back changes a state in another way. -/
  states : ∀ c : Call, c.restores = false → ∀ id s t, u.stateOf id = some s → (u.call c).2.stateOf id = some t →
    t = s ∨ s.Step t
  refusals : ∀ c e, (u.call c).1 = .error e → (u.call c).2 = u

/-- A move that can be made is made. -/
theorem moved_of_step {u : Usage} {id : SubscriptionId} {s : Subscription} (hs : u.registry.lookup id = some s)
    {target : SubscriptionState} (hstep : s.state.Step target) (reason : Option SuspensionReason) :
    u.moved (u.registry.transition id target reason) =
      (.ok (.left s.state),
        { u with registry := u.registry.update id fun s => { s with state := target, suspension := reason } }) := by
  rw [transition_eq_ok.2 ⟨s, hs, SubscriptionState.canMoveTo_iff.2 hstep, rfl, rfl⟩]
  rfl

theorem moved_left_iff {u : Usage} {id : SubscriptionId} {target : SubscriptionState}
    {reason : Option SuspensionReason} {previous : SubscriptionState} :
    (u.moved (u.registry.transition id target reason)).1 = .ok (.left previous) ↔
      u.stateOf id = some previous ∧ previous.Step target := by
  rw [stateOf]
  constructor
  · intro h
    cases hmove : u.registry.transition id target reason with
    | error e =>
      rw [hmove] at h
      cases h
    | ok result =>
      obtain ⟨left, registry⟩ := result
      rw [hmove] at h
      cases h
      obtain ⟨s, hs, hstep, rfl, -⟩ := transition_eq_ok.1 hmove
      exact ⟨by rw [hs, Option.map_some], SubscriptionState.canMoveTo_iff.1 hstep⟩
  · rintro ⟨hstate, hstep⟩
    obtain ⟨s, hs, rfl⟩ := Option.map_eq_some_iff.1 hstate
    rw [moved_of_step hs hstep]

/-- A call that changes the record of an id leaves the changed record there. -/
theorem leaves_of_update {u : Usage} {c : Call} {id : SubscriptionId} {s : Subscription}
    (hs : u.registry.lookup id = some s) {f : Subscription → Subscription}
    (hcall : (u.call c).2.registry = u.registry.update id f) : u.Leaves c id (some (f s)) := by
  intro k
  rw [hcall, lookup_update]
  split
  · rename_i hk
    rw [← hk, hs, Option.map_some]
  · rfl

theorem leaves_of_step {u : Usage} {c : Call} {id : SubscriptionId} {s : Subscription}
    (hs : u.registry.lookup id = some s) {target : SubscriptionState} (hstep : s.state.Step target)
    {reason : Option SuspensionReason} (hcall : u.call c = u.moved (u.registry.transition id target reason)) :
    u.Leaves c id (some { s with state := target, suspension := reason }) :=
  leaves_of_update hs (f := fun s => { s with state := target, suspension := reason })
    (by rw [hcall, moved_of_step hs hstep])

theorem creates_iff {u : Usage} {streams : Streams} {request : SubscriptionRequest} :
    (∃ s, (u.call (.create streams request)).1 = .ok (.created s)) ↔ streams.contains request.stream = true := by
  constructor
  · rintro ⟨s, hs⟩
    by_contra hstream
    simp only [call, Registry.create, if_neg hstream] at hs
    cases hs
  · intro h
    exact ⟨_, by rw [call_create u h]⟩

theorem deletes_iff {u : Usage} {id : SubscriptionId} {s : Subscription} :
    (u.call (.delete id)).1 = .ok (.removed s) ↔ u.registry.lookup id = some s := by
  cases hs : u.registry.lookup id with
  | none =>
    simp only [call, Registry.delete, hs]
    exact ⟨nofun, nofun⟩
  | some t =>
    rw [call_delete hs]
    exact ⟨fun h => by cases h; rfl, fun h => by cases h; rfl⟩

theorem call_refused {u : Usage} {c : Call} {e : SubscriptionError} (h : (u.call c).1 = .error e) :
    (u.call c).2 = u := by
  have ho := u.outcome c
  rw [h] at ho
  generalize (u.call c).2 = u' at ho
  cases ho
  rfl

theorem Kept.wellKept {u : Usage} (h : u.Kept) (hroom : u.created.length < 2147483648) : u.WellKept where
  ascending := h.ascending
  fresh streams request s hs := by
    have ho := u.outcome (.create streams request)
    rw [hs] at ho
    generalize (u.call (.create streams request)).2 = u' at ho
    cases ho with
    | created _ _ _ hnew =>
      have hid : s.id = u.registry.nextId := hnew ▸ rfl
      refine ⟨fun t ht => ?_, fun t ht => hid ▸ h.ne_nextId hroom (h.known t ht)⟩
      rw [UInt32.lt_iff_toNat_lt, hid, h.toNat_nextId hroom]
      exact h.lt_of_mem ht
  creations streams request := creates_iff
  created streams request s hs := by
    have hcall := u.call_create (creates_iff.1 ⟨s, hs⟩)
    obtain rfl : Subscription.new u.registry.nextId request = s := by
      rw [hcall] at hs
      cases hs
      rfl
    refine ⟨rfl, rfl, fun k => ?_⟩
    rw [hcall]
    exact lookup_enter ..
  deletions id s := deletes_iff
  deleted id s hs := by
    refine ⟨fun k => ?_, ?_⟩
    · rw [call_delete hs, ← h.mirrored.keyed id s hs]
      exact lookup_leave ..
    · rw [call_delete hs]
      exact List.mem_append_right _ List.mem_cons_self
  restored n state s hs k := by
    rw [call_reinstate hs]
    exact lookup_enter ..
  keyed := h.mirrored.keyed
  indexed session id := h.mirrored.mem_ofSession
  nonempty := h.mirrored.nonempty
  partitioned := h.mirrored.perm_ids
  moves id target previous := moved_left_iff
  moved id target s hs hstep := leaves_of_step hs hstep rfl
  suspensions id reason previous := moved_left_iff
  suspended id reason s hs hstep := leaves_of_step hs hstep rfl
  amended id a s hs := ⟨by rw [call_update hs], leaves_of_update hs (by rw [call_update hs])⟩
  states c hc id s t hs ht := (u.outcome c).state_step h hroom hc hs ht
  refusals c e he := call_refused he

/-- With fewer creations than there are ids the books are well kept after any calls; and whatever is registered or
was removed, of one id it is of one session, then and at any time before. -/
theorem books_kept (cs : List Call) (hcs : cs.countP Call.creates < 2147483648) :
    (start.run cs).WellKept ∧
    ∀ before after, cs = before ++ after →
      ∀ s t, (start.run before).Holds s → (start.run cs).Holds t → s.id = t.id → s.session = t.session := by
  obtain ⟨hkept, hlen⟩ := kept_run kept_start cs (by show 0 + _ ≤ _; omega)
  refine ⟨hkept.wellKept (Nat.lt_of_le_of_lt hlen (by show 0 + _ < _; omega)), ?_⟩
  rintro before after rfl s t hs ht hid
  have hsplit : before.countP Call.creates ≤ (before ++ after).countP Call.creates := by
    rw [List.countP_append]
    exact Nat.le_add_right ..
  obtain ⟨hbefore, -⟩ := kept_run kept_start before (by show 0 + _ ≤ _; omega)
  have hknown : (start.run (before ++ after)).Knows s := run_append .. ▸ (hbefore.known s hs).run after
  exact hkept.session_eq hknown (hkept.known t ht) hid

def requestOf (session : SessionId) : SubscriptionRequest :=
  ⟨netconfStream, none, .all, .xml, none, none, ⟨session, "", none⟩⟩

/-- Two sessions subscribe. The first record is removed and put back, suspended; it is resumed, and put back once more
over itself, ended. -/
def putBackTwice : List Call :=
  let streams := Streams.new ⟨0, 0⟩ []
  [.create streams (requestOf 1), .moveTo firstSubscriptionId .active, .create streams (requestOf 2),
    .delete firstSubscriptionId, .reinstate 0 .suspended, .moveTo firstSubscriptionId .active, .reinstate 0 .ended]

/-- It is listed for its session only, and there is no way on for it; the other one can still be activated, and then is
active while the first stays where it is. -/
theorem books_kept_putBackTwice :
    let u := start.run putBackTwice
    let second := firstSubscriptionId + 1
    let moved := u.call (.moveTo second .active)
    u.stateOf firstSubscriptionId = some .ended ∧ firstSubscriptionId ∈ u.registry.ofSession 1 ∧
      firstSubscriptionId ∉ u.registry.ofSession 2 ∧
      (∀ target, (u.call (.moveTo firstSubscriptionId target)).1 ≠ .ok (.left .ended)) ∧
      moved.1 = .ok (.left .start) ∧ moved.2.stateOf second = some .active ∧
      moved.2.stateOf firstSubscriptionId = some .ended := by
  intro u second moved
  obtain ⟨hkept, -⟩ := books_kept putBackTwice (by decide)
  have hended : u.stateOf firstSubscriptionId = some .ended := by decide +kernel
  have hstart : u.stateOf second = some .start := by decide +kernel
  have hsession : (u.registry.lookup firstSubscriptionId).map (·.session.id) = some 1 := by decide +kernel
  obtain ⟨s, hs, hown⟩ := Option.map_eq_some_iff.1 hsession
  obtain ⟨t, ht, htstate⟩ := Option.map_eq_some_iff.1 hstart
  have hleaves := hkept.moved second .active t ht (htstate ▸ .activate)
  refine ⟨hended, (hkept.indexed 1 _).2 ⟨s, hs, hown⟩, fun hlisted => ?_, fun target hleft => ?_,
    (hkept.moves _ _ _).2 ⟨hstart, .activate⟩, ?_, ?_⟩
  · obtain ⟨t, ht, htwo⟩ := (hkept.indexed 2 _).1 hlisted
    rw [Option.some.inj (ht.symm.trans hs), hown] at htwo
    cases htwo
  · cases ((hkept.moves _ _ _).1 hleft).2
  · rw [stateOf, hleaves, if_pos rfl]
    rfl
  · rw [stateOf, hleaves, if_neg (by decide)]
    exact hended

end Usage

end Registry

end YangSubscriptions
