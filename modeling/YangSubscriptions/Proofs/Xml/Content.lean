import YangSubscriptions.Proofs.Xml.Tags

/-!
# Content is read as it is written

Events put text and child elements into the element around them (`Adds`), and a written text gives such events
wherever it stands (`Fills` for the content of an element, `Spells` for elements on their own). Escaped text is read
back (`fills_text`), tags around content make one more element (`Fills.element`), and as the root of a document that
is what is parsed (`parse_element`).
-/

namespace YangSubscriptions.Xml

/-! ## Runs of the scan -/

/-- The scan takes these events from a text and leaves the rest. -/
inductive Scans : List String → List Char → List Event → List String → List Char → Prop
  | refl (opened : List String) (cs : List Char) : Scans opened cs [] opened cs
  | step {opened opened' opened'' : List String} {cs r r' : List Char} {e : Event} {es : List Event} :
      next opened cs = .ok (some (e, opened', r)) → r.length < cs.length → Scans opened' r es opened'' r' →
        Scans opened cs (e :: es) opened'' r'

theorem Scans.single {opened opened' : List String} {cs r : List Char} {e : Event}
    (h : next opened cs = .ok (some (e, opened', r))) (hlength : r.length < cs.length) :
    Scans opened cs [e] opened' r :=
  .step h hlength (.refl opened' r)

theorem Scans.trans {o o' o'' : List String} {cs r r' : List Char} {es es' : List Event} (h : Scans o cs es o' r)
    (h' : Scans o' r es' o'' r') : Scans o cs (es ++ es') o'' r' := by
  induction h with
  | refl => exact h'
  | step hnext hlength _ ih => exact .step hnext hlength (ih h')

/-- The scan goes on behind a run with what is left, and there is still fuel for each character of it. -/
theorem Scans.exists_scanFrom {o o' : List String} {cs r : List Char} {es : List Event} (h : Scans o cs es o' r)
    {fuel : Nat} (hfuel : cs.length < fuel) :
    ∃ fuel', r.length < fuel' ∧
      scanFrom fuel o cs = ⟨es ++ (scanFrom fuel' o' r).events, (scanFrom fuel' o' r).failure⟩ := by
  induction h generalizing fuel with
  | refl => exact ⟨fuel, hfuel, rfl⟩
  | step hnext hlength _ ih =>
    cases fuel with
    | zero => omega
    | succ fuel =>
      obtain ⟨fuel', hfuel', hrest⟩ := ih (Nat.lt_of_lt_of_le hlength (Nat.le_of_lt_succ hfuel))
      refine ⟨fuel', hfuel', ?_⟩
      simp only [scanFrom, hnext, hrest, List.cons_append]

theorem scanFrom_nil (fuel : Nat) (o : List String) : scanFrom fuel o [] = ⟨[], none⟩ := by
  cases fuel <;> rfl

/-- A run over the whole text is what the scan gives, as soon as there is fuel for each character. -/
theorem Scans.scanFrom_eq {o o' : List String} {cs : List Char} {es : List Event} (h : Scans o cs es o' [])
    {fuel : Nat} (hfuel : cs.length < fuel) : scanFrom fuel o cs = ⟨es, none⟩ := by
  obtain ⟨fuel', -, hscan⟩ := h.exists_scanFrom hfuel
  rw [hscan, scanFrom_nil, List.append_nil]

/-- What is read of a run of text, which may be empty. -/
def textEvents (run : List Char) : List Event := if run = [] then [] else [.text (String.ofList run)]

/-- A run of text in front of what is no text is read on its own. -/
theorem Scans.run {opened : List String} {run cs rest : List Char} {es : List Event}
    (hrun : ∀ c ∈ run, isText c = true) (hcs : ∀ c ∈ cs.head?, isText c = false) (h : Scans opened cs es opened rest) :
    Scans opened (run ++ cs) (textEvents run ++ es) opened rest := by
  unfold textEvents
  split
  · rename_i hempty
    subst hempty
    exact h
  · rename_i hempty
    refine .step (next_text hempty hrun hcs opened) ?_ h
    have := List.length_pos_iff.2 hempty
    simp only [List.length_append]
    omega

/-! ## What events put into an element -/

/-- The default namespace of a scope. -/
def Scope.Default (scope : Scope) (current : Option String) : Prop :=
  (scope.find? (·.label = "")).map (·.namespaceName) = current ∧ current ≠ some ""

/-- An element with more text and more children. -/
def Partial.fill (p : Partial) (t : String) (xs : List Element) : Partial :=
  { p with content := p.content ++ t, children := xs.reverse ++ p.children }

@[simp] theorem Partial.fill_scope (p : Partial) (t : String) (xs : List Element) : (p.fill t xs).scope = p.scope := rfl

@[simp] theorem Partial.fill_fill (p : Partial) (t t' : String) (xs xs' : List Element) :
    (p.fill t xs).fill t' xs' = p.fill (t ++ t') (xs ++ xs') := by
  simp [fill, String.append_assoc]

@[simp] theorem Partial.fill_empty (p : Partial) : p.fill "" [] = p := by
  simp [fill]

theorem Partial.addText_eq (p : Partial) (t : String) : p.addText t = p.fill t [] := rfl

theorem Partial.addChild_eq (p : Partial) (e : Element) : p.addChild e = p.fill "" [e] := by
  simp [fill, addChild]

/-- Events that put that text and these children into the element around them, which has that scope. -/
def AddsIn (scope : Scope) (es : List Event) (t : String) (xs : List Element) : Prop :=
  ∀ failure top outer more, top.scope = scope →
    build failure top outer (es ++ more) = build failure (top.fill t xs) outer more

theorem AddsIn.nil (scope : Scope) : AddsIn scope [] "" [] := by
  intro failure top outer more _
  simp

theorem AddsIn.append {scope : Scope} {es es' : List Event} {t t' : String} {xs xs' : List Element}
    (h : AddsIn scope es t xs) (h' : AddsIn scope es' t' xs') : AddsIn scope (es ++ es') (t ++ t') (xs ++ xs') := by
  intro failure top outer more hscope
  rw [List.append_assoc, h failure top outer _ hscope, h' failure (top.fill t xs) outer more hscope, Partial.fill_fill]

/-- The text that an event gives to the element around it. -/
def Event.read? : Event → Option String
  | .text s | .cdata s => some s
  | .reference name => some (referenceText name)
  | .aside => some ""
  | _ => none

theorem AddsIn.event (scope : Scope) {e : Event} {s : String} (h : e.read? = some s) : AddsIn scope [e] s [] := by
  intro failure top outer more _
  cases e with
  | text _ | cdata _ | reference _ =>
    cases h
    rw [List.cons_append, List.nil_append, build, Partial.addText_eq]
  | aside =>
    cases h
    rw [List.cons_append, List.nil_append, build, Partial.fill_empty]
  | _ => cases h

theorem AddsIn.run (scope : Scope) (run : List Char) : AddsIn scope (textEvents run) (String.ofList run) [] := by
  unfold textEvents
  split
  · rename_i hempty
    subst hempty
    exact .nil scope
  · exact .event scope rfl

/-- Events that put that text and these children into the element around them, where its default namespace is
`current`. -/
def Adds (current : Option String) (es : List Event) (t : String) (xs : List Element) : Prop :=
  ∀ failure top outer more, top.scope.Default current →
    build failure top outer (es ++ more) = build failure (top.fill t xs) outer more

theorem adds_iff {current : Option String} {es : List Event} {t : String} {xs : List Element} :
    Adds current es t xs ↔ ∀ scope : Scope, scope.Default current → AddsIn scope es t xs :=
  ⟨fun h _ hscope failure top outer more htop => h failure top outer more (htop ▸ hscope),
    fun h failure top outer more hscope => h top.scope hscope failure top outer more rfl⟩

theorem Adds.nil (current : Option String) : Adds current [] "" [] := adds_iff.2 fun scope _ => .nil scope

/-- Texts and elements add up over a series of events. -/
theorem Adds.append {current : Option String} {es es' : List Event} {t t' : String} {xs xs' : List Element}
    (h : Adds current es t xs) (h' : Adds current es' t' xs') : Adds current (es ++ es') (t ++ t') (xs ++ xs') :=
  adds_iff.2 fun scope hscope => (adds_iff.1 h scope hscope).append (adds_iff.1 h' scope hscope)

theorem Adds.event (current : Option String) {e : Event} {s : String} (h : e.read? = some s) :
    Adds current [e] s [] := adds_iff.2 fun scope _ => .event scope h

/-! ## Written content -/

/-- The text `cs`, behind which markup follows, is read as the text `t` and the child elements `xs`. -/
def Fills (current : Option String) (cs : List Char) (t : String) (xs : List Element) : Prop :=
  ∀ opened rest, ∃ es, Scans opened (cs ++ '<' :: rest) es opened ('<' :: rest) ∧ Adds current es t xs

/-- The text `cs` is read as the child elements `xs`, whatever follows. -/
def Spells (current : Option String) (cs : List Char) (xs : List Element) : Prop :=
  ∀ opened rest, ∃ es, Scans opened (cs ++ rest) es opened rest ∧ Adds current es "" xs

theorem Spells.fills {current : Option String} {cs : List Char} {xs : List Element} (h : Spells current cs xs) :
    Fills current cs "" xs := fun opened rest => h opened ('<' :: rest)

theorem Spells.nil (current : Option String) : Spells current [] [] := fun opened rest =>
  ⟨[], .refl opened rest, .nil current⟩

/-- Spellings are put one after another. -/
theorem Spells.append {current : Option String} {cs cs' : List Char} {xs xs' : List Element} (h : Spells current cs xs)
    (h' : Spells current cs' xs') : Spells current (cs ++ cs') (xs ++ xs') := by
  intro opened rest
  obtain ⟨es, hscans, hadds⟩ := h opened (cs' ++ rest)
  obtain ⟨es', hscans', hadds'⟩ := h' opened rest
  refine ⟨es ++ es', ?_, ?_⟩
  · rw [List.append_assoc]
    exact hscans.trans hscans'
  · exact hadds.append hadds'

/-- A text is a run of characters that are written as they are, and what begins with another character. -/
theorem exists_run (cs : List Char) :
    ∃ run more, cs = run ++ more ∧ (∀ c ∈ run, escapeChar c = [c]) ∧ ∀ c ∈ more.head?, escapeChar c ≠ [c] := by
  refine ⟨cs.takeWhile fun c => escapeChar c = [c], cs.dropWhile fun c => escapeChar c = [c], ?_, ?_, ?_⟩
  · rw [List.takeWhile_append_dropWhile]
  · intro c hc
    simpa using List.mem_takeWhile_imp hc
  · intro c hc
    have hnot := List.head?_dropWhile_not (fun c => decide (escapeChar c = [c])) cs
    rw [Option.mem_def.1 hc] at hnot
    simpa using hnot

theorem isText_of_escapeChar {c : Char} (h : escapeChar c = [c]) : isText c = true := by
  rcases escapeChar_cases c with ⟨-, htext⟩ | ⟨name, href, -, -⟩
  · exact htext
  · simp [h] at href

/-- Behind a run of characters that are written as they are, there is markup or a reference. -/
theorem head_escaped {more : List Char} (h : ∀ c ∈ more.head?, escapeChar c ≠ [c]) (rest : List Char) :
    ∀ c ∈ (more.flatMap escapeChar ++ '<' :: rest).head?, isText c = false := by
  intro c hc
  cases more with
  | nil =>
    simp only [List.flatMap_nil, List.nil_append, List.head?_cons, Option.mem_def, Option.some.injEq] at hc
    subst hc
    rfl
  | cons d r =>
    rcases escapeChar_cases d with ⟨hself, -⟩ | ⟨name, href, -, -⟩
    · exact absurd hself (h d rfl)
    · simp only [List.flatMap_cons, href, List.cons_append, List.head?_cons, Option.mem_def, Option.some.injEq] at hc
      subst hc
      rfl

/-- Escaped text is read back: a run of characters that are written as they are is one event, and each other
character is a reference. -/
theorem scans_text (current : Option String) (opened : List String) (rest : List Char) :
    ∀ cs : List Char, ∃ es, Scans opened (cs.flatMap escapeChar ++ '<' :: rest) es opened ('<' :: rest) ∧
      Adds current es (String.ofList cs) []
  | [] => ⟨[], .refl _ _, .nil current⟩
  | c :: cs => by
    rcases escapeChar_cases c with ⟨hself, -⟩ | ⟨name, href, hname, htext⟩
    · obtain ⟨run, more, hcs, hrun, hmore⟩ := exists_run cs
      have hshorter : more.length < (c :: cs).length := by
        rw [hcs]
        simp only [List.length_cons, List.length_append]
        omega
      obtain ⟨es, hscans, hadds⟩ := scans_text current opened rest more
      have hwritten : ∀ d ∈ c :: run, escapeChar d = [d] := by
        intro d hd
        rcases List.mem_cons.1 hd with rfl | hd
        · exact hself
        · exact hrun d hd
      have hsplit : (c :: cs).flatMap escapeChar ++ '<' :: rest =
          (c :: run) ++ (more.flatMap escapeChar ++ '<' :: rest) := by
        rw [hcs, ← List.cons_append, List.flatMap_append, flatMap_escapeChar hwritten, List.append_assoc]
      have hnext := next_text (List.cons_ne_nil c run) (fun d hd => isText_of_escapeChar (hwritten d hd))
        (head_escaped hmore rest) opened
      refine ⟨.text (String.ofList (c :: run)) :: es, ?_, ?_⟩
      · rw [hsplit]
        refine .step hnext ?_ hscans
        simp only [List.length_append, List.length_cons]
        omega
      · have hfirst : Adds current [.text (String.ofList (c :: run))] (String.ofList (c :: run)) [] :=
          .event current rfl
        have hall := hfirst.append hadds
        rw [← String.ofList_append] at hall
        rw [hcs]
        exact hall
    · obtain ⟨es, hscans, hadds⟩ := scans_text current opened rest cs
      have hsplit : (c :: cs).flatMap escapeChar ++ '<' :: rest =
          '&' :: (name ++ ';' :: (cs.flatMap escapeChar ++ '<' :: rest)) := by
        simp [href]
      refine ⟨.reference (String.ofList name) :: es, ?_, ?_⟩
      · rw [hsplit]
        refine .step (next_reference hname opened _) ?_ hscans
        simp only [List.length_cons, List.length_append]
        omega
      · have hfirst : Adds current [.reference (String.ofList name)] (referenceText (String.ofList name)) [] :=
          .event current rfl
        have hall := hfirst.append hadds
        rw [htext, ← String.ofList_append] at hall
        exact hall
termination_by cs => cs.length

theorem fills_text (current : Option String) (s : String) : Fills current (escaped s) s [] := by
  intro opened rest
  have h := scans_text current opened rest s.toList
  rwa [String.ofList_toList] at h

/-! ## Written elements -/

section
variable {name : String} {current ns : Option String}

theorem Scope.Default.enter {scope : Scope} (hscope : scope.Default current) (hns : ∀ n ∈ ns, IsNamespace n) :
    (scope.enter (bindings current ns)).Default (inner current ns) := by
  cases ns with
  | none => exact hscope
  | some n =>
    by_cases hcurrent : current = some n
    · subst hcurrent
      simpa [bindings, inner, enter] using hscope
    · have hne : n ≠ "" := (hns n rfl).1
      simp [bindings, inner, enter, hcurrent, Default, hne]

theorem Scope.Default.resolve {scope : Scope} (hscope : scope.Default current) (h : IsName name) :
    scope.resolve name = .ok (current, name) := by
  have hcolon : ':' ∉ name.toList := fun hc => h.not_mark _ hc (by simp [marks])
  have hcut : Text.cut? ':' name = none := by
    rw [Text.cut?, Text.cutChars_eq_none.2 hcolon]
    rfl
  obtain ⟨hfind, hne⟩ := hscope
  rw [Scope.resolve, hcut]
  simp only
  cases hb : scope.find? (·.label = "") with
  | none =>
    rw [hb] at hfind
    rw [← hfind]
    rfl
  | some b =>
    rw [hb] at hfind
    have hname : b.namespaceName ≠ "" := by
      intro hempty
      rw [Option.map_some, hempty] at hfind
      exact hne hfind.symm
    simp only [hname, if_false]
    rw [← hfind]
    rfl

theorem Scope.Default.start {scope : Scope} (hscope : scope.Default current) (h : IsName name)
    (hns : ∀ n ∈ ns, IsNamespace n) :
    scope.start name (bindings current ns) =
      .ok ⟨inner current ns, name, "", [], scope.enter (bindings current ns)⟩ := by
  rw [Scope.start]
  simp only [(hscope.enter hns).resolve h]
  rfl

/-- A start tag, content and the end tag are one element. -/
theorem Fills.element (h : IsName name) (hns : ∀ n ∈ ns, IsNamespace n) {body : List Char} {t : String}
    {xs : List Element} (hbody : Fills (inner current ns) body t xs) :
    Spells current (startTagChars current name ns ++ body ++ endTagChars name) [.mk (inner current ns) name t xs] := by
  intro opened rest
  obtain ⟨es, hscans, hadds⟩ := hbody (name :: opened) ('/' :: name.toList ++ '>' :: rest)
  have hend : '<' :: ('/' :: name.toList ++ '>' :: rest) = endTagChars name ++ rest := by simp [endTagChars]
  rw [hend] at hscans
  refine ⟨.opening name (bindings current ns) :: (es ++ [.closing]), ?_, ?_⟩
  · rw [List.append_assoc, List.append_assoc]
    refine .step (next_startTag h hns opened _) ?_ (hscans.trans (.single (next_endTag h opened rest) ?_))
    · simp only [startTagChars, List.length_append, List.length_cons]
      omega
    · simp only [endTagChars, List.length_append, List.length_cons]
      omega
  · intro failure top outer more hscope
    rw [List.cons_append, build, hscope.start h hns, List.append_assoc]
    simp only [bind, Except.bind]
    rw [hadds _ _ _ _ (hscope.enter hns), List.cons_append, List.nil_append, build, Partial.addChild_eq]
    simp [Partial.close, Partial.fill]

theorem Spells.empty (h : IsName name) (hns : ∀ n ∈ ns, IsNamespace n) :
    Spells current (emptyTagChars current name ns) [.mk (inner current ns) name "" []] := by
  intro opened rest
  refine ⟨[.empty name (bindings current ns)], .single (next_emptyTag h hns opened rest) ?_, ?_⟩
  · simp only [emptyTagChars, List.length_append, List.length_cons]
    omega
  · intro failure top outer more hscope
    rw [List.cons_append, List.nil_append, build, hscope.start h hns]
    simp only [bind, Except.bind]
    rw [Partial.addChild_eq]
    rfl

theorem spells_text (h : IsName name) (hns : ∀ n ∈ ns, IsNamespace n) (text : String) :
    Spells current (textElementChars current name ns text) [.mk (inner current ns) name text []] := by
  unfold textElementChars
  split
  · rename_i hempty
    subst hempty
    exact .empty h hns
  · exact (fills_text _ text).element h hns

end

/-! ## Documents -/

theorem default_initial : Scope.initial.Default none := by
  simp [Scope.Default, Scope.initial]

theorem parse_of_scans {cs : List Char} {es : List Event} {o : List String} (hcs : cs.head? = some '<')
    (h : Scans [] cs es o []) : parse (String.ofList cs) = root none es := by
  have hscan : scan (String.ofList cs) = ⟨es, none⟩ := by
    rw [scan]
    simp only [String.toList_ofList]
    split
    · simp at hcs
    · exact h.scanFrom_eq (Nat.lt_succ_self _)
  rw [parse, hscan]

section
variable {name : String} {ns : Option String}

theorem inner_none (ns : Option String) : inner none ns = ns := by cases ns <;> rfl

theorem parse_element (h : IsName name) (hns : ∀ n ∈ ns, IsNamespace n) {body : List Char} {t : String}
    {xs : List Element} (hbody : Fills ns body t xs) :
    parse (String.ofList (startTagChars none name ns ++ body ++ endTagChars name)) = .ok (.mk ns name t xs) := by
  obtain ⟨es, hscans, hadds⟩ := hbody [name] ('/' :: name.toList ++ ['>'])
  have hscope := default_initial.enter hns
  have hall : Scans [] (startTagChars none name ns ++ body ++ endTagChars name)
      (.opening name (bindings none ns) :: (es ++ [.closing])) [] [] := by
    rw [List.append_assoc]
    refine .step (next_startTag h hns [] _) ?_ (hscans.trans (.single ?_ ?_))
    · simp only [startTagChars, List.length_append, List.length_cons]
      omega
    · have hend := next_endTag h [] []
      rwa [List.append_nil] at hend
    · simp
  rw [parse_of_scans (by simp [startTagChars]) hall, root, default_initial.start h hns]
  simp only [bind, Except.bind]
  rw [inner_none] at hscope ⊢
  rw [hadds _ _ _ _ hscope, build]
  simp [finish, Partial.close, Partial.fill]

theorem parse_empty (h : IsName name) (hns : ∀ n ∈ ns, IsNamespace n) :
    parse (String.ofList (emptyTagChars none name ns)) = .ok (.mk ns name "" []) := by
  have hnext : next [] (emptyTagChars none name ns) = .ok (some (.empty name (bindings none ns), [], [])) := by
    have hempty := @next_emptyTag name none ns h hns [] []
    rwa [List.append_nil] at hempty
  have hall : Scans [] (emptyTagChars none name ns) [.empty name (bindings none ns)] [] [] :=
    .single hnext (by simp [emptyTagChars])
  rw [parse_of_scans (by simp [emptyTagChars]) hall, root, default_initial.start h hns]
  simp only [bind, Except.bind]
  rw [inner_none]
  rfl

theorem parse_text (h : IsName name) (hns : ∀ n ∈ ns, IsNamespace n) (text : String) :
    parse (String.ofList (textElementChars none name ns text)) = .ok (.mk ns name text []) := by
  unfold textElementChars
  split
  · rename_i hempty
    subst hempty
    exact parse_empty h hns
  · exact parse_element h hns (fills_text ns text)

end

end YangSubscriptions.Xml
