import YangSubscriptions.Proofs.Table
import YangSubscriptions.Router
import Mathlib.Data.List.Nodup

/-!
# Laws of feeds

A router as the service wires it has one feed for each stream, which carries what is published on that
stream, and on the default stream everything (`Wired`). Publishing appends to the queues of the feeds
that carry the stream, taking removes the head of one, and nothing else touches a queue.
-/

namespace YangSubscriptions

/-- Is what is published on a stream carried by the feed of that name? -/
def Carries (feed stream : String) : Prop := feed = stream ∨ feed = netconfStream

instance (feed stream : String) : Decidable (Carries feed stream) :=
  inferInstanceAs (Decidable (feed = stream ∨ feed = netconfStream))

theorem Selector.accepts_forStream (feed stream : String) :
    (forStream feed).accepts stream = decide (Carries feed stream) := by
  unfold forStream Carries
  by_cases h : feed = netconfStream
  · simp only [h, if_true, accepts, or_true, decide_true]
  · simp only [h, if_false, accepts, or_false]

/-- What a feed is once a notification was published. -/
def Feed.hand (f : Feed) (n : Notification) : Feed :=
  if Carries f.name n.stream then { f with queue := f.queue ++ [n] } else f

@[simp] theorem Feed.name_hand (f : Feed) (n : Notification) : (f.hand n).name = f.name := by
  unfold hand
  split <;> rfl

@[simp] theorem Feed.selector_hand (f : Feed) (n : Notification) : (f.hand n).selector = f.selector := by
  unfold hand
  split <;> rfl

@[simp] theorem Feed.isOpen_hand (f : Feed) (n : Notification) : (f.hand n).isOpen = f.isOpen := by
  unfold hand
  split <;> rfl

namespace Router

/-- What waits in the feed of a name. -/
def queue (r : Router) (name : String) : List Notification := ((r.feed? name).map (·.queue)).getD []

/-- One feed for each name, with the selector of its stream and nothing else in it; a closed one is empty. -/
structure Wired (r : Router) : Prop where
  nodup : (r.feeds.map (·.name)).Nodup
  selector : ∀ f ∈ r.feeds, f.selector = .forStream f.name
  carried : ∀ f ∈ r.feeds, ∀ n ∈ f.queue, Carries f.name n.stream
  closed : ∀ f ∈ r.feeds, f.isOpen = false → f.queue = []

theorem mem_of_feed? {r : Router} {name : String} {f : Feed} (h : r.feed? name = some f) :
    f ∈ r.feeds ∧ f.name = name := by
  refine ⟨List.mem_of_find?_eq_some h, ?_⟩
  have := List.find?_some h
  simpa using this

/-- What waits in a feed belongs there. -/
theorem Wired.carries {r : Router} (h : r.Wired) {name : String} {n : Notification} (hn : n ∈ r.queue name) :
    Carries name n.stream := by
  unfold queue at hn
  cases hf : r.feed? name with
  | none =>
    rw [hf] at hn
    cases hn
  | some f =>
    rw [hf] at hn
    obtain ⟨hmem, rfl⟩ := mem_of_feed? hf
    exact h.carried f hmem n hn

theorem find?_map_of_name {g : Feed → Feed} (hg : ∀ f, (g f).name = f.name) (fs : List Feed) (name : String) :
    (fs.map g).find? (·.name = name) = (fs.find? (·.name = name)).map g := by
  rw [List.find?_map]
  congr 2
  funext f
  show decide ((g f).name = name) = decide (f.name = name)
  rw [hg]

theorem find?_filter_of_nodup {fs : List Feed} (h : (fs.map (·.name)).Nodup) (p : Feed → Bool) (name : String) :
    (fs.filter p).find? (·.name = name) = (fs.find? (·.name = name)).filter p := by
  induction fs with
  | nil => rfl
  | cons f fs ih =>
    obtain ⟨hnotin, hnodup⟩ := List.nodup_cons.1 h
    by_cases hname : f.name = name
    · have hnone : fs.find? (·.name = name) = none := by
        refine List.find?_eq_none.2 fun g hg hgname => hnotin ?_
        exact List.mem_map.2 ⟨g, hg, (of_decide_eq_true hgname).trans hname.symm⟩
      rw [List.find?_cons_of_pos (by simpa using hname), List.filter_cons]
      cases hp : p f with
      | true => simp [hname, hp, Option.filter]
      | false => simp [ih hnodup, hnone, hp, Option.filter]
    · rw [List.find?_cons_of_neg (by simpa using hname), List.filter_cons]
      split
      · rw [List.find?_cons_of_neg (by simpa using hname), ih hnodup]
      · exact ih hnodup

/-! ## Publishing -/

theorem publish_eq {r : Router} (h : r.Wired) (n : Notification) :
    (r.publish n).2 = ⟨(r.feeds.filter (·.isOpen)).map fun f => f.hand n⟩ := by
  show Router.mk _ = _
  congr 1
  refine List.map_congr_left fun f hf => ?_
  have haccepts : f.selector.accepts n.stream = decide (Carries f.name n.stream) := by
    rw [h.selector f (List.mem_of_mem_filter hf), Selector.accepts_forStream]
  rw [haccepts]
  unfold Feed.hand
  by_cases hc : Carries f.name n.stream
  · simp only [hc, decide_true, if_true]
  · simp only [hc, decide_false, Bool.false_eq_true, if_false]

/-- A notification goes to the end of every open feed that carries its stream. -/
theorem queue_publish {r : Router} (h : r.Wired) (n : Notification) (name : String) :
    (r.publish n).2.queue name =
      r.queue name ++ if (r.feed? name).any (·.isOpen) ∧ Carries name n.stream then [n] else [] := by
  rw [publish_eq h]
  unfold queue feed?
  rw [find?_map_of_name (fun f => f.name_hand n), find?_filter_of_nodup h.nodup]
  cases hf : r.feeds.find? (·.name = name) with
  | none => rfl
  | some f =>
    obtain ⟨hmem, hname⟩ := mem_of_feed? hf
    cases hopen : f.isOpen with
    | true =>
      by_cases hc : Carries name n.stream <;> simp [Option.filter, hopen, Feed.hand, hname, hc]
    | false => simp [Option.filter, hopen, h.closed f hmem hopen]

theorem wired_publish {r : Router} (h : r.Wired) (n : Notification) : (r.publish n).2.Wired := by
  rw [publish_eq h]
  have hmem : ∀ f ∈ (r.feeds.filter (·.isOpen)).map fun f => f.hand n,
      ∃ g ∈ r.feeds, g.isOpen = true ∧ f = g.hand n := by
    intro f hf
    obtain ⟨g, hg, rfl⟩ := List.mem_map.1 hf
    obtain ⟨hg, hopen⟩ := List.mem_filter.1 hg
    exact ⟨g, hg, hopen, rfl⟩
  constructor
  · rw [List.map_map]
    have hnames : (fun f : Feed => f.name) ∘ (fun f : Feed => f.hand n) = fun f : Feed => f.name :=
      funext fun f => f.name_hand n
    rw [hnames]
    exact h.nodup.sublist (List.filter_sublist.map _)
  · intro f hf
    obtain ⟨g, hg, -, rfl⟩ := hmem f hf
    rw [Feed.name_hand, Feed.selector_hand, h.selector g hg]
  · intro f hf m hm
    obtain ⟨g, hg, -, rfl⟩ := hmem f hf
    rw [Feed.name_hand]
    unfold Feed.hand at hm
    split at hm
    · rename_i hc
      rcases List.mem_append.1 hm with hm | hm
      · exact h.carried g hg m hm
      · rw [List.mem_singleton.1 hm]
        exact hc
    · exact h.carried g hg m hm
  · intro f hf hclosed
    obtain ⟨g, -, hopen, rfl⟩ := hmem f hf
    rw [Feed.isOpen_hand, hopen] at hclosed
    cases hclosed

/-! ## Taking -/

theorem wired_map {r : Router} (h : r.Wired) {g : Feed → Feed} (hname : ∀ f, (g f).name = f.name)
    (hselector : ∀ f, (g f).selector = f.selector) (hqueue : ∀ f, ∀ n ∈ (g f).queue, n ∈ f.queue)
    (hclosed : ∀ f, (f.isOpen = false → f.queue = []) → (g f).isOpen = false → (g f).queue = []) :
    Wired ⟨r.feeds.map g⟩ := by
  constructor
  · rw [List.map_map]
    have hnames : (fun f : Feed => f.name) ∘ g = fun f : Feed => f.name := funext hname
    rw [hnames]
    exact h.nodup
  · intro f hf
    obtain ⟨e, he, rfl⟩ := List.mem_map.1 hf
    rw [hname, hselector, h.selector e he]
  · intro f hf n hn
    obtain ⟨e, he, rfl⟩ := List.mem_map.1 hf
    rw [hname]
    exact h.carried e he n (hqueue e n hn)
  · intro f hf
    obtain ⟨e, he, rfl⟩ := List.mem_map.1 hf
    exact hclosed e (h.closed e he)

/-- The head of a feed's queue taken out. -/
def shift (r : Router) (name : String) : Router := r.modify name fun f => { f with queue := f.queue.tail }

/-- Taking from a feed is taking the head of its queue. -/
theorem take?_eq (r : Router) (name : String) : r.take? name = (r.queue name).head?.map fun n => (n, r.shift name) := by
  unfold take? queue
  cases r.feed? name with
  | none => rfl
  | some f =>
    obtain ⟨_, _, q, _⟩ := f
    cases q <;> rfl

theorem queue_shift (r : Router) (name name' : String) :
    (r.shift name).queue name' = if name = name' then (r.queue name').tail else r.queue name' := by
  unfold shift modify queue feed?
  rw [find?_map_of_name]
  · cases hf : r.feeds.find? (·.name = name') with
    | none => simp
    | some f =>
      obtain ⟨-, hname⟩ := mem_of_feed? hf
      by_cases h : name = name' <;> simp [hname, h, Ne.symm]
  · intro f
    split <;> rfl

theorem wired_shift {r : Router} (h : r.Wired) (name : String) : (r.shift name).Wired := by
  refine wired_map h ?_ ?_ ?_ ?_
  · intro f
    split <;> rfl
  · intro f
    split <;> rfl
  · intro f n hn
    split at hn
    · exact List.mem_of_mem_tail hn
    · exact hn
  · intro f hf hclosed
    split at hclosed
    · rename_i hname
      simp only [hname, if_true, hf hclosed, List.tail_nil]
    · rename_i hname
      simp only [hname, if_false, hf hclosed]

/-! ## Closing -/

/-- All feeds closed, with nothing left in them. -/
def ended (r : Router) : Router := ⟨r.feeds.map fun f => { f with isOpen := false, queue := [] }⟩

theorem wired_ended {r : Router} (h : r.Wired) : r.ended.Wired :=
  wired_map h (fun _ => rfl) (fun _ => rfl) (fun _ _ hn => by cases hn) fun _ _ _ => rfl

theorem queue_ended (r : Router) (name : String) : r.ended.queue name = [] := by
  unfold ended queue feed?
  rw [find?_map_of_name (g := fun f => { f with isOpen := false, queue := [] }) fun _ => rfl]
  cases r.feeds.find? (·.name = name) <;> rfl

/-! ## The feeds of the streams -/

theorem feeds_foldl_subscribe (names : List String) (r : Router) :
    (names.foldl (fun r name => r.subscribe name (.forStream name)) r).feeds =
      r.feeds ++ names.map fun name => ⟨name, .forStream name, [], true⟩ := by
  induction names generalizing r with
  | nil => simp
  | cons name names ih =>
    rw [List.foldl_cons, ih]
    simp [subscribe]

/-- Feeds with different names, one for each stream, are wired from the start. -/
theorem wired_start {names : List String} (h : names.Nodup) :
    (names.foldl (fun r name => r.subscribe name (.forStream name)) empty).Wired := by
  have hfeeds := feeds_foldl_subscribe names empty
  have hmem : ∀ f ∈ (names.foldl (fun r name => r.subscribe name (.forStream name)) empty).feeds,
      ∃ name, f = ⟨name, .forStream name, [], true⟩ := by
    intro f hf
    rw [hfeeds] at hf
    obtain ⟨name, -, rfl⟩ := List.mem_map.1 hf
    exact ⟨name, rfl⟩
  constructor
  · rw [hfeeds]
    show ((names.map fun name => (⟨name, .forStream name, [], true⟩ : Feed)).map (·.name)).Nodup
    rw [List.map_map]
    show (names.map fun name => name).Nodup
    rwa [List.map_id']
  · intro f hf
    obtain ⟨name, rfl⟩ := hmem f hf
    rfl
  · intro f hf n hn
    obtain ⟨name, rfl⟩ := hmem f hf
    cases hn
  · intro f hf _
    obtain ⟨name, rfl⟩ := hmem f hf
    rfl

end Router

end YangSubscriptions
