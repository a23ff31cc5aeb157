import YangSubscriptions.Proofs.Service.Flags
import YangSubscriptions.Proofs.Service.Owners
import Mathlib.Data.List.Induction

/-!
# What the dispatcher forgets

Only registered subscriptions have listeners, and a subscription that ends has its listener let go. Its flag goes with
the listener. But a listener whose receiver went away is swept out by the next notification, without the flag, and
after that the end of the subscription finds nobody to be told and takes no flag back: it stays for good
(`forgotten_unless_swept`, `swept_listener_leaves_flag`). A session that closes takes the flags of its subscriptions
back in any case.
-/

namespace YangSubscriptions

namespace Service

open Records (Given)

variable {s t : Service} {id : SubscriptionId}

/-! ## Listeners -/

theorem Tended.run (h : s.Tended) (hsound : s.dispatcher.Sound) {as : List Action} (has : Throughout Unheard s as)
    (hlistens : ∀ k capacity replace, .attach k capacity replace ∉ as) : (s.run as).Tended := by
  induction as generalizing s with
  | nil => exact h
  | cons a as ih =>
    have ha : ∀ k capacity replace, a ≠ .attach k capacity replace := fun k capacity replace he =>
      hlistens k capacity replace (he ▸ List.mem_cons_self)
    exact ih (h.step hsound has.1 ha) (sound_step hsound a) has.2 fun k capacity replace hmem =>
      hlistens k capacity replace (List.mem_cons_of_mem _ hmem)

/-! ## Flags that stay -/

/-- Does the action tell a subscription of its end that has no listener, though its replay was delivered to one? -/
structure Leaks (id : SubscriptionId) (s : Service) (a : Action) : Prop where
  announced : a.announces = true
  removed : Removed id s (s.step a)
  unattended : s.dispatcher.attached.get? id = none
  flagged : s.flagged id = true

/-- Did a run end the subscription so, and did nobody take the flag back since by detaching what is not there or by
stopping the dispatcher? -/
def LeftBehind (id : SubscriptionId) (origin : Service) (as : List Action) : Prop :=
  ∃ bs a cs, as = bs ++ a :: cs ∧ Leaks id (origin.run bs) a ∧ ∀ c ∈ cs, c ≠ .detach id ∧ c ≠ .stop

theorem LeftBehind.concat {origin : Service} {as : List Action} (h : LeftBehind id origin as) {a : Action}
    (ha : a ≠ .detach id ∧ a ≠ .stop) : LeftBehind id origin (as ++ [a]) := by
  obtain ⟨bs, b, cs, rfl, hleaks, hcs⟩ := h
  refine ⟨bs, b, cs ++ [a], by rw [List.append_assoc, List.cons_append], hleaks, fun c hc => ?_⟩
  rcases List.mem_append.1 hc with hc | hc
  · exact hcs c hc
  · exact List.mem_singleton.1 hc ▸ ha

theorem carries_of_removed {a : Action} (h : Removed id s (s.step a)) : a.carries = false := by
  rw [Bool.eq_false_iff]
  intro hcarries
  exact not_removed (by rw [lookup_of_atRest (s.atRest_step hcarries)]) h

/-- An action that ends a subscription leaves its flag just if it tells the subscription so and nobody is there. -/
theorem flagged_step_iff_leaks {a : Action} (hfresh : Fresh s a) (hsound : s.dispatcher.Sound) (hemptied : Emptied s)
    (hremoved : Removed id s (s.step a)) : (s.step a).flagged id = true ↔ Leaks id s a := by
  rw [forgets_step hfresh hsound hemptied (carries_of_removed hremoved) id]
  constructor
  · rintro ⟨hset, hnot⟩
    have hannounced := Classical.not_imp.1 fun hattended => hnot ⟨hremoved, hattended⟩
    exact ⟨hannounced.1, hremoved, Option.not_isSome_iff_eq_none.1 hannounced.2, hset⟩
  · intro h
    refine ⟨h.flagged, fun hboth => ?_⟩
    have hattended := hboth.2 h.announced
    rw [h.unattended] at hattended
    cases hattended

/-- A flag that outlives its subscription was left behind. -/
theorem leftBehind_of_flagged {origin : Service} (horigin : origin.Reachable) {as : List Action}
    (has : Throughout Fresh origin as) (hstart : origin.flagged id = false)
    (habsent : (origin.run as).registry.lookup id = none) (hset : (origin.run as).flagged id = true) :
    LeftBehind id origin as := by
  induction as using List.reverseRecOn with
  | nil =>
    rw [show origin.run [] = origin from rfl, hstart] at hset
    cases hset
  | append_singleton as a ih =>
    have hs : (origin.run as).Reachable := by
      obtain ⟨now, schema, configs, bs, rfl⟩ := horigin
      exact ⟨now, schema, configs, bs ++ as, (run_append ..).symm⟩
    have hstep : origin.run (as ++ [a]) = (origin.run as).step a := run_append ..
    rw [hstep] at habsent hset
    have ih := ih has.of_append
    cases hcarries : a.carries with
    | true =>
      rw [lookup_of_atRest (atRest_step _ hcarries)] at habsent
      obtain ⟨hbefore, hkeeps⟩ := flagged_of_carries hs.emptied hcarries hset
      refine (ih habsent (hbefore.resolve_right ?_)).concat hkeeps
      rw [habsent]
      nofun
    | false =>
      cases hfound : (origin.run as).registry.lookup id with
      | none =>
        have hbefore := (flagged_of_not_carries hs.wf hs.sound hs.emptied hcarries).1 hset
        refine (ih hfound hbefore).concat ⟨?_, ?_⟩ <;>
        · rintro rfl
          cases hcarries
      | some sub =>
        have hremoved : Removed id (origin.run as) ((origin.run as).step a) := ⟨by rw [hfound]; rfl, habsent⟩
        exact ⟨as, a, [], rfl, (flagged_step_iff_leaks has.last hs.sound hs.emptied hremoved).1 hset, nofun⟩

/-- What is gone stays so, and so does its flag. -/
theorem Gone.flagged_run {n : Nat} (h : Gone n id s) (hemptied : Emptied s) (hset : s.flagged id = true)
    {cs : List Action} (hcount : n + cs.countP Action.establishes ≤ UInt32.size)
    (hcs : ∀ c ∈ cs, c ≠ .detach id ∧ c ≠ .stop) : (s.run cs).flagged id = true := by
  induction cs generalizing s n with
  | nil => exact hset
  | cons c cs ih =>
    rw [List.countP_cons] at hcount
    obtain ⟨m, -, hm, hgone⟩ := h.step (a := c) (by omega)
    refine ih hgone (hemptied.step c) ?_ (by omega) fun c' hc' => hcs c' (List.mem_cons_of_mem _ hc')
    cases hcarries : c.carries with
    | true =>
      obtain ⟨hdetach, hstop⟩ := hcs c List.mem_cons_self
      exact flagged_step_of_carries hemptied hcarries hset hdetach hstop
    | false =>
      refine (flagged_of_not_carries h.wf h.sound hemptied hcarries).2 hset fun hremoved => ?_
      have hregistered := hremoved.1
      rw [h.absent] at hregistered
      cases hregistered

/-! ## What is forgotten -/

/-- After every run in which listeners are attached through the service, as long as there are ids that were not given:
only registered subscriptions have listeners; the flags of subscriptions that are not registered are exactly those
that were left behind; and an action that ends a subscription has its listener let go, and leaves its flag behind just
if it told the subscription so when there was no listener any more. -/
theorem forgotten_unless_swept (now : Instant) (schema : Schema) (configs : List StreamConfig) (as : List Action)
    (hlistens : ∀ id capacity replace, Action.attach id capacity replace ∉ as)
    (hcount : as.countP Action.establishes < UInt32.size) :
    let origin := start now schema configs
    let s := origin.run as
    (∀ id l, s.dispatcher.attached.get? id = some l → (s.registry.lookup id).isSome = true) ∧
    (∀ id, s.registry.lookup id = none ∧ s.flagged id = true ↔ LeftBehind id origin as) ∧
    ∀ a id, a.ends = true → Removed id s (s.step a) →
      (s.step a).dispatcher.attached.get? id = none ∧ ((s.step a).flagged id = true ↔ Leaks id s a) := by
  intro origin s
  have horigin : origin.Reachable := ⟨now, schema, configs, [], rfl⟩
  have hs : s.Reachable := ⟨now, schema, configs, as, rfl⟩
  have hfresh : Throughout Fresh origin as :=
    throughout_fresh Registry.WF.empty (allotted_start now schema configs) (by omega)
  refine ⟨?_, fun id => ⟨fun ⟨habsent, hset⟩ => leftBehind_of_flagged horigin hfresh rfl habsent hset, ?_⟩, ?_⟩
  · have hunheard : Throughout Unheard origin as := (heard_start now schema configs).throughout_unheard (by omega)
    exact Tended.run (s := origin) nofun horigin.sound hunheard hlistens
  · rintro ⟨bs, a, cs, rfl, hleaks, hcs⟩
    let u := origin.run bs
    have hu : u.Reachable := ⟨now, schema, configs, bs, rfl⟩
    have hsplit : s = (u.step a).run cs := run_append ..
    have hcounted : bs.countP Action.establishes + ((if a.establishes then 1 else 0) + cs.countP Action.establishes) <
        UInt32.size := by
      rw [List.countP_append, List.countP_cons] at hcount
      omega
    have ha : Fresh u a := by
      rw [← List.singleton_append, ← List.append_assoc] at hfresh
      exact hfresh.of_append.last
    obtain ⟨n, -, hn, hallotted⟩ := allotted_run Registry.WF.empty (allotted_start now schema configs) bs
    obtain ⟨m, hnm, hm, hafter⟩ := allotted_step hu.wf hallotted a
    obtain ⟨sub, hsub⟩ := Option.isSome_iff_exists.1 hleaks.removed.1
    have hgone : Gone m id (u.step a) :=
      ⟨wf_step hu.wf a, sound_step hu.sound a, hafter, (hallotted.given id sub hsub).mono hnm, hleaks.removed.2⟩
    obtain ⟨⟨_, -, -, hstill⟩, -⟩ := hgone.run cs (by omega)
    rw [hsplit]
    have hset := (flagged_step_iff_leaks ha hu.sound hu.emptied hleaks.removed).2 hleaks
    exact ⟨hstill.absent, hgone.flagged_run (hu.emptied.step a) hset (by omega) hcs⟩
  · intro a id hends hremoved
    have ha : Fresh s a := ⟨hs.wf, fun he => by rw [(Action.plain_of_ends hends).1] at he; cases he⟩
    obtain ⟨sub, hsub⟩ := Option.isSome_iff_exists.1 hremoved.1
    obtain rfl : sub.id = id := hs.wf.keyed id sub hsub
    exact ⟨detached_of_ends hs.wf hs.sound hsub hends hremoved.2, flagged_step_iff_leaks ha hs.sound hs.emptied hremoved⟩

/-- A session asks for alarms from the start on and listens. Its receiver goes away, and an alarm comes. -/
def sweptListener : List Action :=
  [.request ⟨1, "", none⟩ (.establish ⟨some "alarms", none, none, none, some ⟨0, 0⟩⟩), .listen firstSubscriptionId 8,
    .hangUp 0, .publish alarm, .dispatch "alarms"]

/-- If the subscription is killed before the alarm comes it is forgotten, afterwards its flag is left behind. -/
theorem forgotten_unless_swept_killed :
    let origin := start ⟨0, 0⟩ .empty [⟨"alarms", none, 4⟩]
    let id := firstSubscriptionId
    let kill : Action := .request ⟨2, "", none⟩ (.kill id)
    let s := origin.run (sweptListener.take 3)
    let t := origin.run sweptListener
    Removed id s (s.step kill) ∧ (s.step kill).flagged id = false ∧
      Removed id t (t.step kill) ∧ (t.step kill).flagged id = true ∧ LeftBehind id origin (sweptListener ++ [kill]) := by
  intro origin id kill s t
  have hs : Removed id s (s.step kill) := ⟨by decide +kernel, Option.isNone_iff_eq_none.1 (by decide +kernel)⟩
  have ht : Removed id t (t.step kill) := ⟨by decide +kernel, Option.isNone_iff_eq_none.1 (by decide +kernel)⟩
  have hleaks : Leaks id t kill := ⟨rfl, ht, by decide +kernel, by decide +kernel⟩
  obtain ⟨-, -, hends⟩ := forgotten_unless_swept ⟨0, 0⟩ .empty [⟨"alarms", none, 4⟩] (sweptListener.take 3)
    (by simp [sweptListener]) (by decide)
  obtain ⟨-, -, hends'⟩ := forgotten_unless_swept ⟨0, 0⟩ .empty [⟨"alarms", none, 4⟩] sweptListener
    (by simp [sweptListener]) (by decide)
  obtain ⟨-, hleft, -⟩ := forgotten_unless_swept ⟨0, 0⟩ .empty [⟨"alarms", none, 4⟩] (sweptListener ++ [kill])
    (by simp [sweptListener, kill]) (by decide)
  have hset : (t.step kill).flagged id = true := (hends' kill id rfl ht).2.2 hleaks
  have hlast : origin.run (sweptListener ++ [kill]) = t.step kill := run_append ..
  refine ⟨hs, ?_, ht, hset, (hleft id).1 (by rw [hlast]; exact ⟨ht.2, hset⟩)⟩
  rw [Bool.eq_false_iff]
  intro hset
  have hattached : s.dispatcher.attached.get? id = some 0 := by decide +kernel
  rw [((hends kill id rfl hs).2.1 hset).unattended] at hattached
  cases hattached

/-- The subscription ended and its listener is gone, and the dispatcher still holds that its replay was delivered. -/
theorem swept_listener_leaves_flag :
    let s := (start ⟨0, 0⟩ .empty [⟨"alarms", none, 4⟩]).run
      (sweptListener ++ [.request ⟨2, "", none⟩ (.kill firstSubscriptionId)])
    s.registry.lookup firstSubscriptionId = none ∧ s.dispatcher.attached.get? firstSubscriptionId = none ∧
      s.dispatcher.replayed.contains firstSubscriptionId = true := by
  intro s
  exact ⟨Option.isNone_iff_eq_none.1 (by decide +kernel), by decide +kernel, by decide +kernel⟩

end Service

end YangSubscriptions
