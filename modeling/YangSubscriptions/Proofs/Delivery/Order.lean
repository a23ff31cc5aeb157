import YangSubscriptions.Proofs.Delivery.Wiring

/-!
# Order

However feeds and commands are interleaved, what a feed yields and what waits in it are, in this order,
what waited in it and what was published on its streams (`yielded_sublist`); nothing is lost as long as
the dispatcher runs (`yielded_eq`).
-/

namespace YangSubscriptions

namespace Service

/-! ## What a feed yields -/

/-- What a move takes from the feed of a stream, with the state it is taken in. -/
def taken (s : Service) (stream : String) : Move → List (Service × Notification)
  | .dispatch stream' => if stream' = stream then (s.router.take? stream).toList.map fun (n, _) => (s, n) else []
  | _ => []

/-- What is taken from the feed of a stream, move after move. -/
def takenAlong (stream : String) : Service → List Move → List (Service × Notification)
  | _, [] => []
  | s, m :: ms => s.taken stream m ++ takenAlong stream (s.move m) ms

/-- The published notifications that the feed of a stream carries. -/
def publishedOn (stream : String) (ms : List Move) : List Notification :=
  (ms.filterMap Move.published?).filter fun n => Carries stream n.stream

theorem taken_dispatch (s : Service) (stream : String) :
    s.taken stream (.dispatch stream) = (s.router.queue stream).head?.toList.map fun n => (s, n) := by
  show (if stream = stream then _ else _) = _
  rw [if_pos rfl, Router.take?_eq]
  cases (s.router.queue stream).head? <;> rfl

theorem taken_dispatch_of_ne (s : Service) {stream stream' : String} (h : stream' ≠ stream) :
    s.taken stream (.dispatch stream') = [] := if_neg h

theorem publishedOn_cons (stream : String) (m : Move) (ms : List Move) :
    publishedOn stream (m :: ms) = publishedOn stream [m] ++ publishedOn stream ms := by
  unfold publishedOn
  rw [← List.filter_append, ← List.filterMap_append]
  rfl

theorem publishedOn_publish (stream : String) (n : Notification) :
    publishedOn stream [.publish n] = if Carries stream n.stream then [n] else [] := by
  show [n].filter _ = _
  rw [List.filter_singleton]
  by_cases h : Carries stream n.stream <;> simp [h]

/-! ## One move -/

/-- A dispatch takes the head of one feed. -/
theorem queue_dispatch (s : Service) (stream stream' : String) :
    (s.taken stream (.dispatch stream')).map (·.2) ++ (s.dispatch stream').router.queue stream =
      s.router.queue stream := by
  have hrouter : (s.dispatch stream').router.queue stream =
      if stream' = stream then (s.router.queue stream).tail else s.router.queue stream := by
    cases hhead : (s.router.queue stream').head? with
    | none =>
      rw [dispatch_of_head?_none hhead]
      split
      · rename_i he
        rw [← he, List.head?_eq_none_iff.1 hhead]
        rfl
      · rfl
    | some n =>
      have hwires := wires_dispatch hhead
      simp only [wires, Prod.mk.injEq] at hwires
      rw [hwires.1, Router.queue_shift]
  rw [hrouter]
  by_cases h : stream' = stream
  · subst h
    rw [if_pos rfl, taken_dispatch]
    cases s.router.queue stream' <;> rfl
  · rw [if_neg h, taken_dispatch_of_ne s h]
    rfl

theorem yielded_of_untouched (s : Service) (stream : String) {m : Move} (hm : m.touchesFeeds = false) :
    (s.taken stream m).map (·.2) ++ (s.move m).router.queue stream =
      s.router.queue stream ++ publishedOn stream [m] := by
  have hrouter : (s.move m).router = s.router := congrArg (fun w => w.1) (s.wires_move hm)
  have htaken : s.taken stream m = [] := by
    cases m with
    | dispatch stream' => cases hm
    | _ => rfl
  have hpublished : publishedOn stream [m] = [] := by
    cases m with
    | publish n => cases hm
    | _ => rfl
  rw [hrouter, htaken, hpublished, List.append_nil]
  rfl

/-- A move takes from the front of a feed and publishes at its end. -/
theorem yielded_move_sublist {s : Service} (h : s.Wiring) (stream : String) (m : Move) :
    ((s.taken stream m).map (·.2) ++ (s.move m).router.queue stream).Sublist
      (s.router.queue stream ++ publishedOn stream [m]) := by
  by_cases hm : m.touchesFeeds = false
  · rw [s.yielded_of_untouched stream hm]
  · cases m with
    | publish n =>
      have hqueue := Router.queue_publish h.router n stream
      rw [publishedOn_publish]
      show ((s.router.publish n).2.queue stream).Sublist _
      rw [hqueue]
      refine (List.append_sublist_append_left _).2 ?_
      split
      · rename_i hc
        rw [if_pos hc.2]
      · exact List.nil_sublist _
    | dispatch stream' =>
      show (_ ++ (s.dispatch stream').router.queue stream).Sublist _
      rw [queue_dispatch]
      exact List.sublist_append_left ..
    | stop =>
      rw [stop_eq]
      split
      · show (s.router.ended.queue stream).Sublist _
        rw [Router.queue_ended]
        exact List.nil_sublist _
      · exact List.sublist_append_left ..
    | _ => exact absurd rfl hm

/-- While the dispatcher runs nothing is lost. -/
theorem yielded_move_eq {s : Service} (h : s.Wiring) {stream : String} (hstream : s.streams.contains stream = true)
    {m : Move} (hrunning : (s.move m).dispatcher.running = true) :
    (s.taken stream m).map (·.2) ++ (s.move m).router.queue stream =
      s.router.queue stream ++ publishedOn stream [m] := by
  cases m with
  | publish n =>
    have hrunning : s.dispatcher.running = true := hrunning
    have hqueue := Router.queue_publish h.router n stream
    have hfeed : (s.router.feed? stream).any (·.isOpen) = true := by
      obtain ⟨f, hf, hname⟩ := h.present hrunning stream hstream
      cases hfind : s.router.feed? stream with
      | none => exact absurd (decide_eq_true hname) (List.find?_eq_none.1 hfind f hf)
      | some g => exact h.isOpen hrunning g (Router.mem_of_feed? hfind).1
    rw [publishedOn_publish]
    show (s.router.publish n).2.queue stream = _
    rw [hqueue]
    simp only [hfeed, true_and]
  | dispatch stream' =>
    show _ ++ (s.dispatch stream').router.queue stream = _
    rw [queue_dispatch]
    exact (List.append_nil _).symm
  | stop =>
    rw [stop_eq] at hrunning ⊢
    split
    · rename_i hr
      rw [if_pos hr] at hrunning
      cases hrunning
    · exact (List.append_nil _).symm
  | _ => exact s.yielded_of_untouched stream rfl

/-- A dispatcher that was stopped stays so, and no move adds or removes a stream. -/
theorem running_move {s : Service} {m : Move} (h : (s.move m).dispatcher.running = true) :
    s.dispatcher.running = true := by
  have hsame : (s.move m).wires = s.wires → s.dispatcher.running = true := fun he =>
    (congrArg (fun w => w.2.2) he).symm.trans h
  cases m with
  | publish n => exact h
  | dispatch stream =>
    cases hhead : (s.router.queue stream).head? with
    | none =>
      have hdispatch : (s.dispatch stream).dispatcher.running = true := h
      rwa [dispatch_of_head?_none hhead] at hdispatch
    | some n => exact (congrArg (fun w => w.2.2) (wires_dispatch hhead)).symm.trans h
  | stop =>
    rw [stop_eq] at h
    split at h
    · cases h
    · exact h
  | _ => exact hsame (s.wires_move rfl)

theorem contains_move (s : Service) (m : Move) (stream : String) :
    (s.move m).streams.contains stream = s.streams.contains stream := by
  have hsame : (s.move m).wires = s.wires → (s.move m).streams.contains stream = s.streams.contains stream := fun he =>
    congrArg (fun w => w.2.1.contains stream) he
  cases m with
  | publish n => rfl
  | dispatch stream' =>
    cases hhead : (s.router.queue stream').head? with
    | none => exact congrArg (fun s => s.streams.contains stream) (dispatch_of_head?_none hhead)
    | some n =>
      rw [← contains_record s.streams stream' n]
      exact congrArg (fun w => w.2.1.contains stream) (wires_dispatch hhead)
  | stop =>
    rw [stop_eq]
    split <;> rfl
  | _ => exact hsame (s.wires_move rfl)

/-! ## Many moves -/

theorem contains_moves (s : Service) (ms : List Move) (stream : String) :
    (s.moves ms).streams.contains stream = s.streams.contains stream := by
  induction ms generalizing s with
  | nil => rfl
  | cons m ms ih => rw [moves_cons, ih, contains_move]

theorem takenAlong_append (stream : String) (s : Service) (ms ms' : List Move) :
    takenAlong stream s (ms ++ ms') = takenAlong stream s ms ++ takenAlong stream (s.moves ms) ms' := by
  induction ms generalizing s with
  | nil => rfl
  | cons m ms ih => rw [List.cons_append, takenAlong, takenAlong, ih, List.append_assoc, moves_cons]

/-- What is taken is taken in states before moves. -/
theorem along_of_mem_takenAlong {p : Service → Prop} {stream : String} {s : Service} {ms : List Move}
    (h : Along p s ms) : ∀ e ∈ takenAlong stream s ms, p e.1 := by
  induction ms generalizing s with
  | nil => nofun
  | cons m ms ih =>
    intro e he
    rcases List.mem_append.1 he with he | he
    · cases m with
      | dispatch stream' =>
        have he : e ∈ if stream' = stream then (s.router.take? stream).toList.map fun (n, _) => (s, n) else [] := he
        split at he
        · obtain ⟨_, -, rfl⟩ := List.mem_map.1 he
          exact h.1
        · cases he
      | _ => cases he
    · exact ih h.2 e he

theorem yielded_sublist {s : Service} (h : s.Wiring) (stream : String) (ms : List Move) :
    ((takenAlong stream s ms).map (·.2) ++ (s.moves ms).router.queue stream).Sublist
      (s.router.queue stream ++ publishedOn stream ms) := by
  induction ms generalizing s with
  | nil => exact List.sublist_append_left ..
  | cons m ms ih =>
    have hmove := yielded_move_sublist h stream m
    have hrest := ih (h.move m)
    rw [takenAlong, moves_cons, publishedOn_cons, List.map_append, List.append_assoc]
    refine ((List.append_sublist_append_left _).2 hrest).trans ?_
    rw [← List.append_assoc, ← List.append_assoc]
    exact (List.append_sublist_append_right _).2 hmove

theorem running_moves {s : Service} {ms : List Move} (h : (s.moves ms).dispatcher.running = true) :
    s.dispatcher.running = true := by
  induction ms generalizing s with
  | nil => exact h
  | cons m ms ih => exact running_move (ih h)

theorem yielded_eq {s : Service} (h : s.Wiring) {stream : String} (hstream : s.streams.contains stream = true)
    {ms : List Move} (hrunning : (s.moves ms).dispatcher.running = true) :
    (takenAlong stream s ms).map (·.2) ++ (s.moves ms).router.queue stream =
      s.router.queue stream ++ publishedOn stream ms := by
  induction ms generalizing s with
  | nil => exact (List.append_nil _).symm
  | cons m ms ih =>
    have hmove := yielded_move_eq h hstream (running_moves hrunning)
    have hrest := ih (h.move m) ((s.contains_move m stream).trans hstream) hrunning
    rw [takenAlong, moves_cons, publishedOn_cons, List.map_append, List.append_assoc, hrest, ← List.append_assoc, hmove,
      List.append_assoc]

/-- Nothing waits at the start. -/
theorem queue_start (now : Instant) (schema : Schema) (configs : List StreamConfig) (stream : String) :
    (start now schema configs).router.queue stream = [] := by
  let names := (Streams.new now configs).names
  have hfeeds : (start now schema configs).router.feeds =
      names.map fun name => ⟨name, .forStream name, [], true⟩ := Router.feeds_foldl_subscribe names .empty
  unfold Router.queue
  cases hfeed : (start now schema configs).router.feed? stream with
  | none => rfl
  | some f =>
    have hmem := (Router.mem_of_feed? hfeed).1
    rw [hfeeds] at hmem
    obtain ⟨name, -, rfl⟩ := List.mem_map.1 hmem
    rfl

end Service

end YangSubscriptions
