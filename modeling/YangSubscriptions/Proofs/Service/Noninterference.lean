import YangSubscriptions.Proofs.Delivery.FanOut
import YangSubscriptions.Proofs.Service.Bystander

/-!
# Subscriptions apart

How others fare is nothing to a subscription. Of a run it takes part in the actions that are about it or about
everybody: its `story`. Two runs with one story, in which the other subscriptions may be anything, listen or not,
stall, fill up or go away at any time, leave the subscription with the same record and tally and its listeners with
the same messages (`neighbours_unnoticed`). What one action preserves of that is `Alike.step` if the action is in
the story, and `akin_step` if it is not.
-/

namespace YangSubscriptions

namespace Action

/-- The action with a listener called by its place among these. -/
def numbered (own : List ListenerId) : Action → Action
  | receive l max => receive (own.idxOf l) max
  | hangUp l => hangUp (own.idxOf l)
  | a => a

/-- Is it what a receiver does to its listener? -/
def usesListener : Action → Bool
  | receive _ _ | hangUp _ => true
  | _ => false

theorem of_numbered_eq {own own' : List ListenerId} {a b : Action} (h : a.numbered own = b.numbered own') :
    (a = b ∧ a.usesListener = false) ∨
      (∃ l l' max, a = .receive l max ∧ b = .receive l' max ∧ own.idxOf l = own'.idxOf l') ∨
      (∃ l l', a = .hangUp l ∧ b = .hangUp l' ∧ own.idxOf l = own'.idxOf l') := by
  cases a with
  | receive l max =>
    cases b with
    | receive l' max' =>
      obtain ⟨hindex, rfl⟩ := receive.inj h
      exact .inr (.inl ⟨l, l', max, rfl, rfl, hindex⟩)
    | _ => cases h
  | hangUp l =>
    cases b with
    | hangUp l' => exact .inr (.inr ⟨l, l', rfl, rfl, hangUp.inj h⟩)
    | _ => cases h
  | _ =>
    cases b with
    | receive | hangUp => cases h
    | _ => exact .inl ⟨h, rfl⟩

end Action

namespace Service

open Dispatcher (Roster)

/-- Is an action about the subscription, whose listeners these are, or about everybody? Time passes for each run
by itself. -/
def concerns (A : SubscriptionId) (own : List ListenerId) (s : Service) : Action → Bool
  | .request session (.establish r) => (s.checkEstablish session r).isOk && s.registry.nextId = A
  | .request _ (.modify r) => r.id = A
  | .request _ (.delete id) | .request _ (.kill id) | .expire id => id = A
  | .listen id _ | .attach id _ _ | .detach id => id = A
  | .closeSession session => A ∈ s.registry.ofSession session
  | .receive l _ | .hangUp l => l ∈ own
  | .wait _ => false
  | .publish _ | .dispatch _ | .putFilter _ _ | .removeFilter _ | .setSchema _ _ | .revalidate | .stop | .closeFeeds
  | .refuse _ => true

/-- The listener that an action opens for the subscription, if it does. -/
def joins (A : SubscriptionId) (s : Service) : Action → List ListenerId
  | .listen id _ =>
    if id = A ∧ (s.registry.lookup A).any (·.state.isLive) = true then [s.dispatcher.listeners.size] else []
  | .attach id _ _ => if id = A then [s.dispatcher.listeners.size] else []
  | _ => []

/-- What a subscription takes part in, with the time of it, from a state in which its listeners are these. -/
def story (A : SubscriptionId) : List ListenerId → Service → List Action → List (Instant × Action)
  | _, _, [] => []
  | own, s, a :: as =>
    let rest := story A (own ++ s.joins A a) (s.step a) as
    if s.concerns A own a then (s.now, a.numbered own) :: rest else rest

/-- The listeners of the subscription after a run, in the order they were opened. -/
def listenersOf (A : SubscriptionId) : List ListenerId → Service → List Action → List ListenerId
  | own, _, [] => own
  | own, s, a :: as => listenersOf A (own ++ s.joins A a) (s.step a) as

variable {A : SubscriptionId} {own own' own'' : List ListenerId} {s t u : Service}

theorem joins_of_not_concerns {a : Action} (h : s.concerns A own a = false) : s.joins A a = [] := by
  cases a with
  | listen id capacity =>
    have hne : ¬ id = A := of_decide_eq_false h
    simp [joins, hne]
  | attach id capacity replace => exact if_neg (of_decide_eq_false h)
  | _ => rfl

/-! ## Actions of others -/

theorem roster_modifyListener {d : Dispatcher} (h : Roster A own d) (l : ListenerId) (f : Listener → Listener) :
    Roster A own (d.modifyListener l f) :=
  h.of_keeps (h.sound.modifyListener l f)
    ⟨Nat.le_of_eq (Dispatcher.size_modifyListener ..).symm, fun _ _ _ hid => hid⟩ fun _ hl => hl

theorem alike_modifyListener (h : Roster A own s.dispatcher) {l : ListenerId} (hl : l ∉ own)
    (f : Listener → Listener) : Alike A own own s { s with dispatcher := s.dispatcher.modifyListener l f } := by
  refine (Alike.refl h).rewire h (roster_modifyListener h l f) ?_ rfl
  have hout : (s.dispatcher.desk A own).places.length ≤ own.idxOf l := by
    rw [List.idxOf_eq_length hl]
    exact Nat.le_of_eq (List.length_map _)
  rw [h.desk_modifyListener, List.modify_eq_self hout]

/-- An action on another subscription leaves all that is held for this one as it is. -/
theorem alike_step (h : Roster A own s.dispatcher) (hwf : s.registry.WF) {a : Action}
    (ha : s.concerns A own a = false) (hwait : ∀ now, a ≠ .wait now) : Alike A own own s (s.step a) := by
  cases a with
  | request session r =>
    cases r with
    | establish r =>
      refine alike_establish h fun hok hid => ?_
      simp [concerns, hok, hid] at ha
    | modify r => exact alike_modify h hwf session (of_decide_eq_false ha)
    | delete id => exact alike_delete h hwf session (of_decide_eq_false ha)
    | kill id => exact alike_kill h hwf (of_decide_eq_false ha)
  | closeSession session => exact alike_closeSession h hwf (of_decide_eq_false ha)
  | expire id => exact alike_complete h hwf (of_decide_eq_false ha)
  | listen id capacity =>
    show Alike A own own s (s.listen id capacity).2
    rw [listen_eq]
    split
    · exact alike_attach h (of_decide_eq_false ha) capacity false
    · exact .refl h
  | attach id capacity replace => exact alike_attach h (of_decide_eq_false ha) capacity replace
  | detach id => exact alike_detach h (of_decide_eq_false ha)
  | receive l max =>
    show Alike A own own s (s.receive l max).2
    unfold receive
    split
    · exact alike_modifyListener h (of_decide_eq_false ha) _
    · exact .refl h
  | hangUp l => exact alike_modifyListener h (of_decide_eq_false ha) _
  | wait now => exact absurd rfl (hwait now)
  | _ => cases ha

/-! ## Actions in the story -/

theorem Alike.modifyListener (h : Alike A own own' s t) {l l' : ListenerId} (hindex : own.idxOf l = own'.idxOf l')
    (f : Listener → Listener) :
    Alike A own own' { s with dispatcher := s.dispatcher.modifyListener l f }
      { t with dispatcher := t.dispatcher.modifyListener l' f } := by
  refine h.rewire (roster_modifyListener h.left l f) (roster_modifyListener h.right l' f) ?_ h.holding
  rw [h.left.desk_modifyListener, h.right.desk_modifyListener, hindex, h.desk]

theorem receive_eq (h : Roster A own s.dispatcher) {l : ListenerId} (hl : l ∈ own) (max : Nat) :
    (s.receive l max).2 =
      { s with dispatcher := s.dispatcher.modifyListener l fun x => (x.take max).2 } := by
  obtain ⟨x, hx⟩ := Option.isSome_iff_exists.1 ((h.sound.numbered l).2 (h.known l hl))
  unfold receive
  rw [hx]

/-- Other feeds, for everybody. -/
theorem Alike.feed (h : Alike A own own' s t) {router router' : Router} (hrouter : router = router') :
    Alike A own own' { s with router } { t with router := router' } := by
  refine ⟨h.left, h.right, ?_⟩
  show { s.share A own with router } = { t.share A own' with router := router' }
  rw [h.share, hrouter]

theorem Alike.stop (h : Alike A own own' s t) : Alike A own own' (s.step .stop) (t.step .stop) := by
  have hstop : ∀ {own : List ListenerId} {d : Dispatcher}, Roster A own d → Roster A own d.stop := fun h =>
    h.of_keeps h.sound.stop (Dispatcher.quiet_stop _).toKeeps nofun
  rw [show s.step .stop = _ from stop_eq s, show t.step .stop = _ from stop_eq t, h.running]
  split
  · have hstopped := h.rewire (hstop h.left) (hstop h.right)
      (by rw [Dispatcher.desk_stop, Dispatcher.desk_stop, h.desk]) h.holding
    exact hstopped.feed (congrArg Router.ended h.router)
  · exact h

/-- An action on the subscription, or on everybody, does the same in services that are alike for it. -/
theorem Alike.step_self (h : Alike A own own' s t) (hs : s.registry.WF) (ht : t.registry.WF) {a : Action}
    (ha : s.concerns A own a = true) (ha' : t.concerns A own' a = true) (huses : a.usesListener = false) :
    Alike A (own ++ s.joins A a) (own' ++ t.joins A a) (s.step a) (t.step a) := by
  -- all but two kinds of actions open no listener
  have hnone : s.joins A a = [] → t.joins A a = [] → Alike A own own' (s.step a) (t.step a) →
      Alike A (own ++ s.joins A a) (own' ++ t.joins A a) (s.step a) (t.step a) := by
    intro hs ht hstep
    rwa [hs, ht, List.append_nil, List.append_nil]
  cases a with
  | request session r =>
    refine hnone rfl rfl ?_
    cases r with
    | establish r =>
      simp only [concerns, Bool.and_eq_true, decide_eq_true_eq] at ha ha'
      exact h.establish ha.2 ha'.2 session r
    | modify r => exact h.modify hs session (of_decide_eq_true ha)
    | delete id =>
      obtain rfl := of_decide_eq_true ha
      exact h.delete hs session
    | kill id =>
      obtain rfl := of_decide_eq_true ha
      exact h.kill hs
  | closeSession session => exact hnone rfl rfl (h.closeSession hs ht session)
  | expire id =>
    obtain rfl := of_decide_eq_true ha
    exact hnone rfl rfl (h.complete hs)
  | listen id capacity =>
    obtain rfl := of_decide_eq_true ha
    show Alike id (own ++ s.joins id (.listen id capacity)) (own' ++ t.joins id (.listen id capacity))
      (s.listen id capacity).2 (t.listen id capacity).2
    rw [listen_eq, listen_eq, h.lookup]
    unfold joins
    rw [h.lookup]
    cases hlive : (t.registry.lookup id).any (·.state.isLive) with
    | true =>
      simp only [and_self, if_true]
      exact h.attach capacity false
    | false => simpa using h
  | attach id capacity replace =>
    obtain rfl := of_decide_eq_true ha
    simp only [joins, if_true]
    exact h.attach capacity replace
  | detach id =>
    obtain rfl := of_decide_eq_true ha
    exact hnone rfl rfl h.detach
  | publish n => exact hnone rfl rfl (h.feed (congrArg (fun router : Router => (router.publish n).2) h.router))
  | dispatch stream => exact hnone rfl rfl (h.dispatch stream)
  | putFilter | removeFilter | setSchema | revalidate => exact hnone rfl rfl (h.revise hs ht rfl)
  | stop => exact hnone rfl rfl h.stop
  | closeFeeds => exact hnone rfl rfl (h.feed rfl)
  | refuse refusing => exact hnone rfl rfl (h.change h.holding rfl h.deadline)
  | receive | hangUp => cases huses
  | wait => cases ha

theorem Alike.step (h : Alike A own own' s t) (hs : s.registry.WF) (ht : t.registry.WF) {a b : Action}
    (ha : s.concerns A own a = true) (hb : t.concerns A own' b = true) (hsame : a.numbered own = b.numbered own') :
    Alike A (own ++ s.joins A a) (own' ++ t.joins A b) (s.step a) (t.step b) := by
  rcases Action.of_numbered_eq hsame with ⟨rfl, huses⟩ | ⟨l, l', max, rfl, rfl, hindex⟩ | ⟨l, l', rfl, rfl, hindex⟩
  · exact h.step_self hs ht ha hb huses
  · show Alike A (own ++ []) (own' ++ []) (s.receive l max).2 (t.receive l' max).2
    rw [List.append_nil, List.append_nil, receive_eq h.left (of_decide_eq_true ha),
      receive_eq h.right (of_decide_eq_true hb)]
    exact h.modifyListener hindex _
  · show Alike A (own ++ []) (own' ++ []) (s.hangUp l) (t.hangUp l')
    rw [List.append_nil, List.append_nil]
    exact h.modifyListener hindex _

/-! ## Runs -/

/-- Alike but for the clock. -/
def Akin (A : SubscriptionId) (own own' : List ListenerId) (s t : Service) : Prop :=
  ∀ now, Alike A own own' { s with now } { t with now }

theorem Alike.akin (h : Alike A own own' s t) : Akin A own own' s t := by
  refine fun now => ⟨h.left, h.right, ?_⟩
  show { s.share A own with now } = { t.share A own' with now }
  rw [h.share]

namespace Akin

theorem trans (h : Akin A own own' s t) (h' : Akin A own' own'' t u) : Akin A own own'' s u :=
  fun now => (h now).trans (h' now)

theorem left (h : Akin A own own' s t) : Roster A own s.dispatcher := (h s.now).left

theorem right (h : Akin A own own' s t) : Roster A own' t.dispatcher := (h s.now).right

theorem alike (h : Akin A own own' s t) (hnow : s.now = t.now) : Alike A own own' s t := by
  have hs := h s.now
  rwa [show ({ t with now := s.now } : Service) = t by rw [hnow]] at hs

end Akin

theorem akin_step (h : Roster A own s.dispatcher) (hwf : s.registry.WF) {a : Action}
    (ha : s.concerns A own a = false) : Akin A own own s (s.step a) := by
  by_cases hwait : ∃ now, a = .wait now
  · obtain ⟨now, rfl⟩ := hwait
    exact fun _ => .refl h
  · exact (alike_step h hwf ha fun now he => hwait ⟨now, he⟩).akin

theorem story_cons_of_concerns {a : Action} (h : s.concerns A own a = true) (as : List Action) :
    story A own s (a :: as) = (s.now, a.numbered own) :: story A (own ++ s.joins A a) (s.step a) as := if_pos h

theorem story_cons_of_not_concerns {a : Action} (h : s.concerns A own a = false) (as : List Action) :
    story A own s (a :: as) = story A own (s.step a) as := by
  rw [story, h, joins_of_not_concerns h, List.append_nil]
  rfl

theorem listenersOf_cons_of_not_concerns {a : Action} (h : s.concerns A own a = false) (as : List Action) :
    listenersOf A own s (a :: as) = listenersOf A own (s.step a) as := by
  rw [listenersOf, joins_of_not_concerns h, List.append_nil]

/-- What is not in the story may happen in one run alone. -/
theorem akin_run_of_story_nil (h : Roster A own s.dispatcher) (hwf : s.registry.WF) {as : List Action}
    (hstory : story A own s as = []) : Akin A own (listenersOf A own s as) s (s.run as) := by
  induction as generalizing s with
  | nil => exact (Alike.refl h).akin
  | cons a as ih =>
    cases ha : s.concerns A own a with
    | true =>
      rw [story_cons_of_concerns ha] at hstory
      cases hstory
    | false =>
      have hstep := akin_step h hwf ha
      rw [story_cons_of_not_concerns ha] at hstory
      rw [listenersOf_cons_of_not_concerns ha]
      exact hstep.trans (ih hstep.right (wf_step hwf a) hstory)

/-- Runs with one story, from states that are alike, lead to such states again. -/
theorem Akin.run (h : Akin A own own' s t) (hs : s.registry.WF) (ht : t.registry.WF) {as bs : List Action}
    (hstory : story A own s as = story A own' t bs) :
    Akin A (listenersOf A own s as) (listenersOf A own' t bs) (s.run as) (t.run bs) := by
  -- one run is followed action by action, and the other up to the next action in the story
  induction as generalizing own own' s t bs with
  | nil => exact h.trans (akin_run_of_story_nil h.right ht hstory.symm)
  | cons a as ih =>
    cases ha : s.concerns A own a with
    | false =>
      have hstep := akin_step h.left hs ha
      have hnext : Akin A own own' (s.step a) t := fun now => (hstep now).symm.trans (h now)
      rw [story_cons_of_not_concerns ha] at hstory
      rw [listenersOf_cons_of_not_concerns ha]
      exact ih hnext (wf_step hs a) ht hstory
    | true =>
      induction bs generalizing own' t with
      | nil =>
        rw [story_cons_of_concerns ha] at hstory
        cases hstory
      | cons b bs ihb =>
        cases hb : t.concerns A own' b with
        | false =>
          rw [story_cons_of_not_concerns hb] at hstory
          rw [listenersOf_cons_of_not_concerns hb]
          exact ihb (h.trans (akin_step h.right ht hb)) (wf_step ht b) hstory
        | true =>
          rw [story_cons_of_concerns ha, story_cons_of_concerns hb] at hstory
          obtain ⟨hhead, htail⟩ := List.cons.inj hstory
          obtain ⟨hnow, hsame⟩ := Prod.mk.inj hhead
          exact ih ((h.alike hnow).step hs ht ha hb hsame).akin (wf_step hs a) (wf_step ht b) htail

/-- Take two runs of which a subscription sees the same: the same events published and handed on, the same schemas and
filters, and of its own the same id, requests, attachments and receives, at the same times. Whatever the others
are and do in between, and however many listeners they open, fill, close or abandon, the subscription has the same
record and the same tally afterwards, as many listeners, and each of them as its counterpart: with the same messages
accepted, pending and taken, so that the next receive yields the same. And it does not matter in which order the
listeners are walked when a notification is handed on. -/
theorem neighbours_unnoticed (now : Instant) (schema : Schema) (configs : List StreamConfig) (A : SubscriptionId)
    {as bs : List Action}
    (hstory : story A [] (start now schema configs) as = story A [] (start now schema configs) bs) :
    let s := (start now schema configs).run as
    let t := (start now schema configs).run bs
    let own := listenersOf A [] (start now schema configs) as
    let own' := listenersOf A [] (start now schema configs) bs
    s.registry.lookup A = t.registry.lookup A ∧
    s.registry.tally A = t.registry.tally A ∧
    own.map s.dispatcher.listener? = own'.map t.dispatcher.listener? ∧
    (∀ max, own.map (fun l => (s.receive l max).1) = own'.map fun l => (t.receive l max).1) ∧
    ∀ (stream : String) (n : Notification) (ids : List SubscriptionId), (s.router.queue stream).head? = some n →
      ids.Perm s.dispatcher.dropClosed.attached.keys →
      ids.foldl (fun s id => s.offer id stream n) (s.recorded stream n) = s.dispatch stream := by
  intro s t own own'
  have hstart : Roster A [] (start now schema configs).dispatcher :=
    Dispatcher.roster_of_unattached Dispatcher.sound_empty rfl
  have hakin : Akin A own own' s t :=
    (Alike.refl hstart).akin.run Registry.WF.empty Registry.WF.empty hstory
  have halike := hakin s.now
  have hlisteners : own.map s.dispatcher.listener? = own'.map t.dispatcher.listener? := by
    have hplaces := congrArg (fun desk : Desk => desk.places.map (·.listener)) halike.desk
    rwa [Dispatcher.listeners_desk, Dispatcher.listeners_desk] at hplaces
  refine ⟨halike.lookup, congrArg Holding.tally halike.holding, hlisteners, fun max => ?_,
    fun stream n ids hn hperm => ?_⟩
  · have hreceived : ∀ u : Service, (fun l => (u.receive l max).1) =
        (fun x? : Option Listener => (x?.map fun x => (x.take max).1).getD []) ∘ u.dispatcher.listener? := by
      intro u
      funext l
      unfold receive
      rw [Function.comp_apply]
      cases u.dispatcher.listener? l <;> rfl
    rw [hreceived s, hreceived t, ← List.map_map, ← List.map_map, hlisteners]
  · rw [dispatch_eq, hn]
    exact foldl_offer_of_perm hakin.left.sound.dropClosed hperm (hperm.nodup_iff.2 (Table.keys_nodup _)) stream n

def askForAlarms (session : SessionId) (filter : Option StreamFilter) : Action :=
  .request ⟨session, "", none⟩ (.establish ⟨some "alarms", filter, none, none, none⟩)

/-- Another subscription listens first, with no room for anything. -/
def besideStalled : List Action :=
  [askForAlarms 1 none, askForAlarms 2 none, .listen (firstSubscriptionId + 1) 0, .listen firstSubscriptionId 8,
    .publish alarm, .dispatch "alarms", .receive 1 8]

/-- Another subscription listens later, to none of the alarms, and its receiver goes away. -/
def besideGone : List Action :=
  [askForAlarms 1 none, .listen firstSubscriptionId 8, askForAlarms 2 (some (.subtree ⟨[]⟩)),
    .listen (firstSubscriptionId + 1) 1, .hangUp 1, .publish alarm, .wait ⟨5, 0⟩, .wait ⟨0, 0⟩, .dispatch "alarms",
    .receive 0 8]

/-- Either way the alarm arrives. -/
theorem neighbours_unnoticed_stalledOrGone :
    let started := start ⟨0, 0⟩ .empty [⟨"alarms", none, 0⟩]
    let s := started.run besideStalled
    let t := started.run besideGone
    story firstSubscriptionId [] started besideStalled = story firstSubscriptionId [] started besideGone ∧
      s.registry.tally firstSubscriptionId = t.registry.tally firstSubscriptionId ∧
      (s.registry.tally firstSubscriptionId).sent = 1 ∧
      s.dispatcher.listener? 1 = t.dispatcher.listener? 0 ∧
      (s.dispatcher.listener? 1).map (·.accepted.length) = some 1 := by
  have hstory : story firstSubscriptionId [] (start ⟨0, 0⟩ .empty [⟨"alarms", none, 0⟩]) besideStalled =
      story firstSubscriptionId [] (start ⟨0, 0⟩ .empty [⟨"alarms", none, 0⟩]) besideGone := rfl
  intro started s t
  have hunnoticed := neighbours_unnoticed ⟨0, 0⟩ .empty [⟨"alarms", none, 0⟩] firstSubscriptionId hstory
  have hown : listenersOf firstSubscriptionId [] started besideStalled = [1] := by decide +kernel
  have hown' : listenersOf firstSubscriptionId [] started besideGone = [0] := by decide +kernel
  have hlisteners := hunnoticed.2.2.1
  rw [hown, hown'] at hlisteners
  exact ⟨hstory, hunnoticed.2.1, by decide +kernel, (List.cons.inj hlisteners).1, by decide +kernel⟩

end Service

end YangSubscriptions
