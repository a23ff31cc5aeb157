import YangSubscriptions.Proofs.Delivery.Steps
import YangSubscriptions.Proofs.Delivery.Tallies
import YangSubscriptions.Proofs.Service.Refusal

/-!
# Accounting

`tallies_account` states what the tally of a subscription says after any run, and after any order of moves
that follows it: how many messages about the subscription listeners accepted, and how many notifications its
filter rejected while it was active and had an open listener. Requests that fail do not change a tally. A new
subscription starts its tally anew, so the counter must not come back to an id that was given; until then
the tallies of ids that were not given are zero (`Counted`).
-/

namespace YangSubscriptions

namespace Service

open Records (Allotted Given)

/-- How many of the notifications that an action offers to a subscription does its filter reject? -/
def rejectedBy (s : Service) (id : SubscriptionId) (a : Action) : Nat := (s.moveOf? a).elim 0 (s.rejected id)

def rejectedIn (id : SubscriptionId) : Service → List Action → Nat
  | _, [] => 0
  | s, a :: as => s.rejectedBy id a + rejectedIn id (s.step a) as

/-! ## Operations -/

theorem Balanced.handled {P : SubscriptionId → Prop} {r : SubscriptionId → Nat} {s t : Service} (h : Balanced P r s)
    (hhandled : Handled P s t) : Balanced P r t := by
  induction hhandled with
  | refl => exact h
  | @alter t u _ _ dispatcher _ tallies _ _ ih =>
    refine ih.of_silent (fun id => ?_) ?_ ?_
    · rw [Registry.tally, tallies, ← Registry.tally]
    · rw [dispatcher]
      exact .refl _
    · rw [dispatcher]
      exact ih.sound
  | emit _ hid ih => exact ih.emit _ hid
  | detach _ ih => exact ih.detach _

/-- A termination that fails leaves the tallies alone. -/
theorem tallies_terminate {s t : Service} {sub : Subscription} {reason : TerminationReason} {e : SubscriptionError}
    (h : s.terminate sub reason = (.error e, t)) : t.registry.tallies = s.registry.tallies := by
  unfold terminate at h
  split at h
  · split at h
    · cases h
      rfl
    · cases h
      rfl
    · rename_i hretire
      split at h
      · cases h
        exact (Registry.retire_eq_ok hretire).2.1
      · cases h
  · cases h
    rfl

theorem tallies_delete {s t : Service} {session : Session} {id : SubscriptionId} {e : SubscriptionError}
    (h : s.delete session id = (.error e, t)) : t.registry.tallies = s.registry.tallies := by
  rcases s.delete_cases session id with ⟨e', he⟩ | ⟨sub, -, -, he⟩ <;> rw [he] at h
  · cases h
    rfl
  · exact tallies_terminate h

theorem tallies_kill {s t : Service} {id : SubscriptionId} {e : SubscriptionError}
    (h : s.kill id = (.error e, t)) : t.registry.tallies = s.registry.tallies := by
  rcases s.kill_cases id with ⟨e', he⟩ | ⟨sub, -, he⟩ <;> rw [he] at h
  · cases h
    rfl
  · exact tallies_terminate h

/-- A request that fails leaves the tallies alone, but for that of an id that was given in vain. -/
theorem tallies_answer {s t : Service} {session : Session} {r : Request} {e : SubscriptionError}
    (h : s.answer session r = (.error e, t)) :
    t.registry.tallies = s.registry.tallies ∨
      ((Action.request session r).establishes = true ∧ t.registry.tallies = s.skipped.registry.tallies) := by
  have herror : ∀ {α β : Type} {f : α → β} {x : Except SubscriptionError α}, x.map f = .error e → x = .error e := by
    intro α β f x hx
    cases x with
    | error e' => exact congrArg _ (Except.error.inj hx)
    | ok a => cases hx
  obtain ⟨hresult, rfl⟩ := Prod.mk.inj h
  cases r with
  | establish r =>
    rcases establish_eq_error (Prod.ext (herror hresult) rfl) with he | ⟨-, sub, -, he⟩
    · exact .inl (congrArg (fun s => s.registry.tallies) he)
    · exact .inr ⟨rfl, congrArg (fun s => s.registry.tallies) he⟩
  | modify r =>
    have he := modify_eq_error (Prod.ext (herror hresult) rfl)
    exact .inl (congrArg (fun s => s.registry.tallies) he)
  | delete id => exact .inl (tallies_delete (Prod.ext (herror hresult) rfl))
  | kill id => exact .inl (tallies_kill (Prod.ext (herror hresult) rfl))

/-! ## Actions -/

/-- Do the tallies count, with `n` ids given so far? -/
structure Counted (n : Nat) (r : SubscriptionId → Nat) (s : Service) : Prop where
  wf : s.registry.WF
  allotted : s.records.Allotted n
  balanced : Balanced (Given n) r s

theorem rejectedBy_of_not_carries {a : Action} (h : a.carries = false) (s : Service) (id : SubscriptionId) :
    s.rejectedBy id a = 0 := by
  cases a <;> first | rfl | cases h

namespace Counted

variable {n : Nat} {r : SubscriptionId → Nat} {s : Service}

theorem registered (h : Counted n r s) : Registered (Given n) s := by
  intro id sub hsub
  have hgiven : Given n id := h.allotted.given id sub hsub
  exact ⟨hgiven, (h.wf.keyed id sub hsub).symm ▸ hgiven⟩

/-- Giving an id in vain does not show in a tally, as long as it was not given before. -/
theorem tally_skipped (h : Counted n r s) (hn : n < UInt32.size) (id : SubscriptionId) :
    s.skipped.registry.tally id = s.registry.tally id := by
  show ((s.registry.tallies.insert s.registry.nextId ⟨0, 0⟩).get? id).getD ⟨0, 0⟩ = _
  rw [Table.get?_insert]
  split
  · rename_i hid
    have hnext : s.registry.nextId = firstSubscriptionId + UInt32.ofNat n := h.allotted.next
    rw [← hid, hnext]
    exact (h.balanced.unused _ (Records.not_given hn)).symm
  · rfl

theorem tally_answer (h : Counted n r s) {session : Session} {request : Request}
    (hn : (Action.request session request).establishes = true → n < UInt32.size) {e : SubscriptionError} {t : Service}
    (ht : s.answer session request = (.error e, t)) (id : SubscriptionId) :
    t.registry.tally id = s.registry.tally id := by
  rcases tallies_answer ht with he | ⟨hestablishes, he⟩
  · rw [Registry.tally, he, ← Registry.tally]
  · rw [Registry.tally, he, ← Registry.tally, h.tally_skipped (hn hestablishes)]

theorem carry (h : Counted n r s) {a : Action} (ha : a.carries = true) :
    Balanced (Given n) (fun id => r id + s.rejectedBy id a) (s.step a) := by
  by_cases hfeeds : a = .closeFeeds
  · subst hfeeds
    exact h.balanced.of_silent (fun _ => rfl) (.refl _) h.balanced.sound
  · have hmove : ∀ m, s.moveOf? a = some m → s.Fair m ∧ ∀ change encoding, m ≠ .deliver change encoding := by
      intro m hm
      cases a with
      | listen id capacity =>
        simp only [moveOf?] at hm
        split at hm
        · cases hm
          exact ⟨h.wf.keyed, fun _ _ he => by cases he⟩
        · cases hm
      | dispatch stream =>
        cases hm
        exact ⟨h.wf.keyed, fun _ _ he => by cases he⟩
      | attach id capacity replace =>
        cases hm
        exact ⟨h.wf.keyed, fun _ _ he => by cases he⟩
      | _ =>
        cases hm
        all_goals exact ⟨trivial, fun _ _ he => by cases he⟩
    rw [s.step_of_carries ha hfeeds]
    unfold rejectedBy
    cases hm : s.moveOf? a with
    | none => exact h.balanced
    | some m =>
      obtain ⟨hfair, hne⟩ := hmove m hm
      exact h.balanced.move hfair h.registered fun change encoding he => absurd he (hne change encoding)

/-- An action adds to every tally what it sends and what is rejected, and it gives one id at most. -/
theorem step (h : Counted n r s) {a : Action} (hcount : n + (if a.establishes then 1 else 0) ≤ UInt32.size) :
    ∃ m, n ≤ m ∧ m ≤ n + (if a.establishes then 1 else 0) ∧
      Counted m (fun id => r id + s.rejectedBy id a) (s.step a) := by
  obtain ⟨m, hnm, hm, hallotted⟩ := allotted_step h.wf h.allotted a
  have hwf := wf_step h.wf a
  cases hestablishes : a.establishes with
  | false =>
    simp only [hestablishes, Bool.false_eq_true, if_false, Nat.add_zero] at hm ⊢
    obtain rfl : m = n := Nat.le_antisymm hm hnm
    refine ⟨m, Nat.le_refl m, Nat.le_refl m, hwf, hallotted, ?_⟩
    cases hcarries : a.carries with
    | true => exact h.carry hcarries
    | false =>
      have hhandled := h.balanced.handled (handled_step h.registered hcarries hestablishes)
      exact hhandled.congr fun id => by rw [rejectedBy_of_not_carries hcarries, Nat.add_zero]
  | true =>
    obtain ⟨session, request, rfl⟩ := Action.exists_of_establishes hestablishes
    have hn : n < UInt32.size := by simpa only [hestablishes, if_true, Nat.succ_le_iff] using hcount
    have hnext : s.registry.nextId = firstSubscriptionId + UInt32.ofNat n := h.allotted.next
    have hid : Given (n + 1) s.registry.nextId := ⟨n, Nat.lt_succ_self n, hnext⟩
    rcases handled_establish hid session request with he | hhandled
    · have hsame : s.step (.request session (.establish request)) = s := he
      rw [hsame]
      exact ⟨n, Nat.le_refl n, Nat.le_add_right .., h⟩
    · refine ⟨n + 1, Nat.le_succ n, Nat.le_refl _, hwf, ⟨?_, fun id sub hsub => ?_⟩, ?_⟩
      · have hkept := hhandled.nextId_eq
        show (s.establish session request).2.registry.nextId = _
        rw [hkept, UInt32.ofNat_add, ← UInt32.add_assoc, ← hnext]
        rfl
      · exact (hallotted.given id sub hsub).mono hm
      · have hskipped : Balanced (Given (n + 1)) r s.skipped :=
          (h.balanced.mono fun id hid => hid.mono (Nat.le_succ n)).of_silent (h.tally_skipped hn) (.refl _)
            h.balanced.sound
        exact hskipped.handled hhandled

theorem run (h : Counted n r s) (as : List Action) (hcount : n + as.countP Action.establishes ≤ UInt32.size) :
    ∃ m, n ≤ m ∧ m ≤ n + as.countP Action.establishes ∧
      Counted m (fun id => r id + rejectedIn id s as) (s.run as) := by
  induction as generalizing s n r with
  | nil => exact ⟨n, Nat.le_refl n, Nat.le_refl n, h⟩
  | cons a as ih =>
    rw [List.countP_cons] at hcount ⊢
    obtain ⟨k, hnk, hk, hstepped⟩ := h.step (a := a) (by omega)
    obtain ⟨m, hkm, hm, hrun⟩ := ih hstepped (by omega)
    refine ⟨m, by omega, by omega, hrun.wf, hrun.allotted, ?_⟩
    exact hrun.balanced.congr fun id => (Nat.add_assoc ..).symm

end Counted

theorem counted_start (now : Instant) (schema : Schema) (configs : List StreamConfig) :
    Counted 0 (fun _ => 0) (start now schema configs) :=
  ⟨Registry.WF.empty, allotted_start now schema configs,
    ⟨Dispatcher.sound_empty, Dispatcher.addressed_empty, fun _ => rfl, fun _ _ => rfl⟩⟩

/-! ## The accounts -/

/-- What the tallies say from a state on, with so many notifications rejected before. -/
structure Accounted (s : Service) (rejected : SubscriptionId → Nat) : Prop where
  /-- However moves are interleaved, a tally counts the messages about the subscription that listeners accepted and
  the notifications that its filter rejected. -/
  tally : ∀ ms, s.FairAlong ms → ∀ id, (s.moves ms).registry.tally id =
    ⟨.ofNat ((s.moves ms).dispatcher.sentTo id), .ofNat (rejected id + rejectedAlong id s ms)⟩
  /-- These are the messages in the listeners of the subscription: none holds messages about two, and those of one that
  is attached are about the subscription it is attached to. -/
  addressed : ∀ ms, s.FairAlong ms → (s.moves ms).dispatcher.Addressed
  /-- A notification that comes to nothing for a subscription leaves its tally alone. -/
  uncounted : ∀ ms, s.FairAlong ms → ∀ stream n id, ((s.moves ms).router.queue stream).head? = some n →
    (s.moves ms).Uncounted id stream n →
      ((s.moves ms).dispatch stream).registry.tally id = (s.moves ms).registry.tally id
  /-- A request that fails leaves all tallies alone. -/
  refused : ∀ session request e t, s.answer session request = (.error e, t) →
    ∀ id, t.registry.tally id = s.registry.tally id

/-- After every run, and after any fair moves that follow it, the tally of a subscription counts, modulo
`2 ^ 64`, the messages that listeners accepted about it and the notifications that were offered to it, live or
for replay, while it was active and had an open listener, and that its filter rejected. What comes to nothing
and requests that fail leave the tallies alone. That holds as long as there are ids that were not given yet. -/
theorem tallies_account (now : Instant) (schema : Schema) (configs : List StreamConfig) (as : List Action)
    (hcount : as.countP Action.establishes < UInt32.size) :
    Accounted ((start now schema configs).run as) (fun id => rejectedIn id (start now schema configs) as) := by
  obtain ⟨n, -, hn, hcounted⟩ := (counted_start now schema configs).run as (by omega)
  have hbalanced : Balanced (fun _ => True) (fun id => rejectedIn id (start now schema configs) as)
      ((start now schema configs).run as) :=
    (hcounted.balanced.mono fun _ _ => trivial).congr fun id => (Nat.zero_add _).symm
  constructor
  · exact fun ms hfair id => (hbalanced.moves hfair).tally id
  · exact fun ms hfair => (hbalanced.moves hfair).addressed
  · exact fun ms hfair stream n id hhead h => h.tally_dispatch (hbalanced.moves hfair).sound hhead
  · exact fun session request e t ht => hcounted.tally_answer (fun _ => by omega) ht

def alarmsSchema : Schema := ⟨[], [.mk none "alarm" .container [] [], .mk none "clearance" .container [] []]⟩

def onlyAlarms : SubtreeFilter := ⟨[.selection (.bare "alarm")]⟩

/-- A session that wants alarms only listens to them, and sets a stop-time. -/
def extendedListener : List Action :=
  [.request ⟨1, "", none⟩ (.establish ⟨some "alarms", some (.subtree onlyAlarms), none, none, none⟩),
    .listen firstSubscriptionId 8,
    .request ⟨1, "", none⟩ (.modify ⟨firstSubscriptionId, none, none, some ⟨60, 0⟩⟩)]

/-- It is told of the stop-time, and its filter rejects that an alarm is cleared. -/
theorem tallies_account_extendedListener :
    let s := (start ⟨0, 0⟩ alarmsSchema [⟨"alarms", none, 0⟩]).run extendedListener
    let cleared : Notification := ⟨"alarms", ⟨1, 0⟩, .container (.bare "clearance") []⟩
    s.registry.tally firstSubscriptionId = ⟨1, 0⟩ ∧
      ((s.moves [.publish cleared, .dispatch "alarms"]).registry.tally firstSubscriptionId).excluded = 1 := by
  intro s cleared
  let ms : List Move := [.publish cleared, .dispatch "alarms"]
  have haccounted := tallies_account ⟨0, 0⟩ alarmsSchema [⟨"alarms", none, 0⟩] extendedListener (by decide)
  have hsent : s.dispatcher.sentTo firstSubscriptionId = 1 := by decide +kernel
  have hbefore :
      rejectedIn firstSubscriptionId (start ⟨0, 0⟩ alarmsSchema [⟨"alarms", none, 0⟩]) extendedListener = 0 := by
    decide +kernel
  have htally := haccounted.tally [] trivial firstSubscriptionId
  rw [moves_nil, hsent, hbefore] at htally
  refine ⟨htally, ?_⟩
  let t := s.move (.publish cleared)
  have hkeyed : t.registry.Keyed :=
    (Reachable.wf ⟨⟨0, 0⟩, alarmsSchema, [⟨"alarms", none, 0⟩], extendedListener, rfl⟩).keyed
  have hrejects : t.rejects firstSubscriptionId "alarms" cleared = true := by
    let sub : Subscription :=
      ⟨firstSubscriptionId, "alarms", some (.subtree onlyAlarms), .subtree onlyAlarms, .json, some ⟨60, 0⟩, none,
        ⟨1, "", none⟩, .active, none⟩
    have hsub : t.registry.lookup firstSubscriptionId = some sub := by rfl
    have hnone : onlyAlarms.prune cleared.body = none := by
      simp [SubtreeFilter.prune, SubtreeFilter.selection?, SubtreeFilter.isEmpty, onlyAlarms, FilterNode.selection,
        FilterNode.select, NodeName.Matches, NodeName.bare, Node.name, cleared]
    simp [rejects, hsub, sub, ResolvedFilter.apply, hnone]
  have hrejected : rejectedAlong firstSubscriptionId s ms = 1 := by
    show 0 + (t.rejected firstSubscriptionId (.dispatch "alarms") + 0) = 1
    rw [rejected_dispatch rfl, if_pos ⟨rfl, hrejects⟩]
  have hafter := haccounted.tally ms ⟨trivial, hkeyed, trivial⟩ firstSubscriptionId
  rw [hbefore, hrejected] at hafter
  exact congrArg Tally.excluded hafter

end Service

end YangSubscriptions
