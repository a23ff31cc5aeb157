import YangSubscriptions.Service.Filters

/-!
# Runs of the service

A run is a list of actions, each taken to its end before the next. What holds of every run is proved
from what one action preserves (`Throughout.preserves`); a condition on a run is a condition on every
action in the state it is taken in. The passing of time and the settling of the feeds are themselves
runs (`exists_run_pass`, `exists_run_settle`).
-/

namespace YangSubscriptions

/-- What can happen to a service. -/
inductive Action where
  | publish (n : Notification)
  | dispatch (stream : String)
  | request (session : Session) (request : Request)
  | closeSession (session : SessionId)
  | expire (id : SubscriptionId)
  | putFilter (name : String) (filter : StreamFilter)
  | removeFilter (name : String)
  | setSchema (schema : Schema) (watching : Bool)
  | revalidate
  | listen (id : SubscriptionId) (capacity : Nat)
  | attach (id : SubscriptionId) (capacity : Nat) (replace : Bool)
  | detach (id : SubscriptionId)
  | receive (l : ListenerId) (max : Nat)
  | hangUp (l : ListenerId)
  | stop
  | closeFeeds
  | refuse (refusing : Bool)
  | wait (now : Instant)

namespace Action

/-- Does it ask for a new subscription? -/
def establishes : Action → Bool
  | request _ (.establish _) => true
  | _ => false

/-- Does it end subscriptions without a request that could fail? -/
def tearsDown : Action → Bool
  | closeSession _ | expire _ => true
  | _ => false

end Action

namespace Service

/-- From now on the datastore refuses commits, or takes them. -/
def refuse (s : Service) (refusing : Bool) : Service := { s with datastore := { s.datastore with refusing } }

def step (s : Service) : Action → Service
  | .publish n => (s.publish n).2
  | .dispatch stream => s.dispatch stream
  | .request session r => (s.answer session r).2
  | .closeSession session => (s.closeSession session).2
  | .expire id => s.complete id
  | .putFilter name filter => (s.putFilter name filter).2
  | .removeFilter name => (s.removeFilter name).2
  | .setSchema schema watching => s.setSchema schema watching
  | .revalidate => s.revalidate
  | .listen id capacity => (s.listen id capacity).2
  | .attach id capacity replace => (s.attach id capacity replace).2.2
  | .detach id => (s.detach id).2
  | .receive l max => (s.receive l max).2
  | .hangUp l => s.hangUp l
  | .stop => (s.stop).toOption.getD s
  | .closeFeeds => s.closeFeeds
  | .refuse refusing => s.refuse refusing
  | .wait now => { s with now }

def run (s : Service) (as : List Action) : Service := as.foldl step s

@[simp] theorem run_nil (s : Service) : s.run [] = s := rfl

@[simp] theorem run_cons (s : Service) (a : Action) (as : List Action) : s.run (a :: as) = (s.step a).run as := rfl

theorem run_append (s : Service) (as bs : List Action) : s.run (as ++ bs) = (s.run as).run bs := List.foldl_append ..

/-- Is every action of a run taken in a state that meets the condition? -/
def Throughout (p : Service → Action → Prop) : Service → List Action → Prop
  | _, [] => True
  | s, a :: as => p s a ∧ Throughout p (s.step a) as

instance decidableThroughout {p : Service → Action → Prop} [∀ s a, Decidable (p s a)] :
    ∀ s as, Decidable (Throughout p s as)
  | _, [] => isTrue trivial
  | s, a :: as =>
    have := decidableThroughout (p := p) (s.step a) as
    inferInstanceAs (Decidable (p s a ∧ Throughout p (s.step a) as))

namespace Throughout

variable {p q : Service → Action → Prop}

theorem of_append {s : Service} {as bs : List Action} (h : Throughout p s (as ++ bs)) : Throughout p s as := by
  induction as generalizing s with
  | nil => trivial
  | cons a as ih => exact ⟨h.1, ih h.2⟩

/-- What holds throughout a run holds throughout its beginnings. -/
theorem of_prefix {s : Service} {as bs : List Action} (h : Throughout p s as) (hb : bs <+: as) : Throughout p s bs := by
  obtain ⟨cs, rfl⟩ := hb
  exact h.of_append

theorem last {s : Service} {as : List Action} {a : Action} (h : Throughout p s (as ++ [a])) : p (s.run as) a := by
  induction as generalizing s with
  | nil => exact h.1
  | cons a as ih => exact ih h.2

theorem and {s : Service} {as : List Action} (h : Throughout p s as) (h' : Throughout q s as) :
    Throughout (fun s a => p s a ∧ q s a) s as := by
  induction as generalizing s with
  | nil => trivial
  | cons a as ih => exact ⟨⟨h.1, h'.1⟩, ih h.2 h'.2⟩

/-- What one action preserves holds after the run. -/
theorem preserves {I : Service → Prop} (hstep : ∀ s a, I s → p s a → I (s.step a)) {s : Service} {as : List Action}
    (h : Throughout p s as) (hs : I s) : I (s.run as) := by
  induction as generalizing s with
  | nil => exact hs
  | cons a as ih => exact ih h.2 (hstep s a hs h.1)

end Throughout

theorem throughout_true (s : Service) (as : List Action) : Throughout (fun _ _ => True) s as := by
  induction as generalizing s with
  | nil => trivial
  | cons a as ih => exact ⟨trivial, ih _⟩

/-- What every action preserves holds after every run. -/
theorem run_preserves {I : Service → Prop} (hstep : ∀ s a, I s → I (s.step a)) {s : Service} (as : List Action)
    (hs : I s) : I (s.run as) := (throughout_true s as).preserves (fun s a h _ => hstep s a h) hs

/-- Can a run from the start lead to the state? -/
def Reachable (s : Service) : Prop :=
  ∃ now schema configs as, s = (start now schema configs).run as

theorem Reachable.preserves {I : Service → Prop} (hstart : ∀ now schema configs, I (start now schema configs))
    (hstep : ∀ s a, I s → I (s.step a)) {s : Service} (h : s.Reachable) : I s := by
  obtain ⟨now, schema, configs, as, rfl⟩ := h
  exact run_preserves hstep as (hstart now schema configs)

/-! ## Composite steps are runs -/

theorem exists_run_dispatchUpTo (count : Nat) (s : Service) : ∃ as, s.dispatchUpTo count = s.run as := by
  induction count generalizing s with
  | zero => exact ⟨[], rfl⟩
  | succ count ih =>
    unfold dispatchUpTo
    split
    · rename_i f _
      obtain ⟨as, has⟩ := ih (s.dispatch f.name)
      exact ⟨.dispatch f.name :: as, has⟩
    · exact ⟨[], rfl⟩

/-- Handling all that waits in feeds is a run of dispatches. -/
theorem exists_run_settle (s : Service) : ∃ as, s.settle = s.run as := exists_run_dispatchUpTo _ s

/-- Time passes by reaching one deadline after another. -/
theorem exists_run_pass (s : Service) (seconds : Nat) : ∃ as, s.pass seconds = s.run as := by
  have hdue : ∀ (due : List (SubscriptionId × Instant)) (s : Service), ∃ as,
      due.foldl (fun s e => { s with now := if s.now < e.2 then e.2 else s.now }.complete e.1) s = s.run as := by
    intro due
    induction due with
    | nil => exact fun s => ⟨[], rfl⟩
    | cons e due ih =>
      intro s
      let now := if s.now < e.2 then e.2 else s.now
      obtain ⟨as, has⟩ := ih ({ s with now }.complete e.1)
      exact ⟨.wait now :: .expire e.1 :: as, has⟩
  obtain ⟨as, has⟩ := hdue (s.due (s.now.addSeconds seconds)) s
  refine ⟨as ++ [.wait (s.now.addSeconds seconds)], ?_⟩
  rw [run_append, ← has]
  rfl

end Service

end YangSubscriptions
