import YangSubscriptions.Rpc.Input
import YangSubscriptions.Proofs.Except
import YangSubscriptions.Proofs.Xml.Tokens

/-!
# What a document is

A text is accepted just if it is a prolog, one element whose tags match and whose prefixes are declared, and a text
that begins well (`parse_eq_ok_iff`): of what follows the root element one event is looked at, and whatever it is, the
document is accepted, be it a second element (`parse_of_second`).

What is accepted is read off the scan by induction on its fuel: what is read inside an open element is content up to
its end tag, and a child is content of its own (`content_of_build`). In the other direction the induction is on the
content, behind a run of text that is still read on (`scans_content`).
-/

namespace YangSubscriptions.Xml

/-! ## Names -/

/-- In the scope, the name of an element stands for that local name in that namespace. -/
inductive Scope.Names (scope : Scope) : String → Option String → String → Prop
  | plain {name : String} (hcolon : ':' ∉ name.toList) :
    scope.Names name (((scope.find? (·.label = "")).map (·.namespaceName)).filter (· ≠ "")) name
  | labelled {label part : List Char} {b : Binding} (hcolon : ':' ∉ label) (hlabel : label ≠ [])
    (hdeclared : scope.find? (·.label = String.ofList label) = some b) (hns : b.namespaceName ≠ "") :
    scope.Names (String.ofList (label ++ ':' :: part)) (some b.namespaceName) (String.ofList part)

theorem Scope.resolve_of_names {scope : Scope} {name part : String} {ns : Option String}
    (h : scope.Names name ns part) : scope.resolve name = .ok (ns, part) := by
  cases h with
  | plain hcolon =>
    have hcut : Text.cut? ':' name = none := by rw [Text.cut?, Text.cutChars_eq_none.2 hcolon, Option.map_none]
    rw [resolve, hcut]
    simp only
    cases hfind : scope.find? (·.label = "") with
    | none => rfl
    | some b =>
      by_cases hempty : b.namespaceName = ""
      · simp [hempty, Option.filter]
      · simp [hempty, Option.filter]
  | @labelled label part b hcolon hlabel hdeclared hns =>
    have hcut : Text.cut? ':' (String.ofList (label ++ ':' :: part)) = some (String.ofList label, String.ofList part) := by
      rw [Text.cut?, String.toList_ofList, Text.cutChars_append hcolon, Option.map_some]
    have hne : String.ofList label ≠ "" := fun heq => hlabel (by simpa using congrArg String.toList heq)
    rw [resolve, hcut]
    simp only [hne, ne_eq, not_false_eq_true, and_true, hdeclared, hns, if_false]

theorem Scope.names_of_resolve {scope : Scope} {name part : String} {ns : Option String}
    (h : scope.resolve name = .ok (ns, part)) : scope.Names name ns part := by
  rw [resolve] at h
  cases hcut : Text.cut? ':' name with
  | none =>
    have hcolon : ':' ∉ name.toList := by
      rw [← Text.cutChars_eq_none]
      simpa [Text.cut?] using hcut
    have hplain := @Names.plain scope name hcolon
    rw [hcut] at h
    simp only at h
    cases hfind : scope.find? (·.label = "") with
    | none =>
      rw [hfind] at h hplain
      cases h
      exact hplain
    | some b =>
      rw [hfind] at h hplain
      cases h
      by_cases hempty : b.namespaceName = ""
      · simpa [hempty, Option.filter] using hplain
      · simpa [hempty, Option.filter] using hplain
  | some cut =>
    obtain ⟨⟨label, rest⟩, hchars, rfl⟩ := Option.map_eq_some_iff.1 hcut
    obtain ⟨hname, hcolon⟩ := Text.cutChars_eq_some hchars
    rw [hcut] at h
    simp only at h
    split at h
    · rename_i b hfind
      split at h
      · cases h
      · rename_i hns
        cases h
        have hlabel : label ≠ [] := by
          rintro rfl
          simpa using List.find?_some hfind
        have hname : name = String.ofList (label ++ ':' :: rest) := by rw [← hname, String.ofList_toList]
        rw [hname]
        refine .labelled hcolon hlabel ?_ hns
        have hne : String.ofList label ≠ "" := fun heq => hlabel (by simpa using congrArg String.toList heq)
        simpa [hne] using hfind
    · cases h

theorem Scope.start_eq_ok_iff {scope : Scope} {name : String} {bs : List Binding} {p : Partial} :
    scope.start name bs = .ok p ↔
      ∃ ns part, (scope.enter bs).Names name ns part ∧ p = ⟨ns, part, "", [], scope.enter bs⟩ := by
  constructor
  · intro h
    obtain ⟨⟨ns, part⟩, hresolve, heq⟩ := exists_ok_of_bind h
    cases heq
    exact ⟨ns, part, names_of_resolve hresolve, rfl⟩
  · rintro ⟨ns, part, hnames, rfl⟩
    exact ok_of_bind (resolve_of_names hnames) rfl

/-! ## Elements and their content -/

mutual
/-- What is written is an element. -/
inductive IsElement : Scope → List Char → Element → Prop
  | empty {scope : Scope} {a : List Char} {name part : String} {ns : Option String} {bs : List Binding}
    (htag : Token a (.empty name bs)) (hname : (scope.enter bs).Names name ns part) :
    IsElement scope a (.mk ns part "" [])
  | tags {scope : Scope} {a cs z : List Char} {name part : String} {ns : Option String} {bs : List Binding} {t : String}
    {xs : List Element} (htag : Token a (.opening name bs)) (hname : (scope.enter bs).Names name ns part)
    (hcontent : IsContent (scope.enter bs) cs t xs) (hend : EndTag z name) :
    IsElement scope (a ++ (cs ++ z)) (.mk ns part t xs)

/-- What is written is the content of an element: its text, and its children. -/
inductive IsContent : Scope → List Char → String → List Element → Prop
  | nil {scope : Scope} : IsContent scope [] "" []
  | piece {scope : Scope} {a cs : List Char} {e : Event} {s t : String} {xs : List Element} (htoken : Token a e)
    (hread : e.read? = some s) (hmore : IsContent scope cs t xs) : IsContent scope (a ++ cs) (s ++ t) xs
  | child {scope : Scope} {a cs : List Char} {x : Element} {t : String} {xs : List Element}
    (helement : IsElement scope a x) (hmore : IsContent scope cs t xs) : IsContent scope (a ++ cs) t (x :: xs)
end

/-! ## What is written is read -/

theorem build_of_read {e : Event} {s : String} (h : e.read? = some s) {failure : Option Malformed} {top : Partial}
    {outer : List Partial} {more : List Event} :
    build failure top outer (e :: more) = build failure (top.fill s []) outer more :=
  AddsIn.event top.scope h failure top outer more rfl

theorem Token.head_append {a : List Char} {e : Event} (h : Token a e) (htext : ∀ s, e ≠ .text s) (rest : List Char) :
    ∀ c ∈ (a ++ rest).head?, isText c = false := by
  obtain ⟨c, r, rfl, hc⟩ := h.exists_head
  intro d hd
  cases hd
  rw [← Bool.not_eq_true, hc]
  rintro ⟨s, hs⟩
  exact htext s hs

theorem Token.of_text {a : List Char} {s : String} (h : Token a (.text s)) :
    s = String.ofList a ∧ ∀ c ∈ a, isText c = true := by
  cases h with
  | text _ h => exact ⟨rfl, h⟩
  | tag _ _ hread => rcases startTag_cases hread with ⟨name, bs, heq⟩ | ⟨name, bs, heq⟩ <;> cases heq

theorem Token.ne_closing {a : List Char} {e : Event} (h : Token a e) : e ≠ .closing := by
  rintro rfl
  cases h with
  | tag _ _ hread => rcases startTag_cases hread with ⟨name, bs, heq⟩ | ⟨name, bs, heq⟩ <;> cases heq

/-- A token that is no text is taken in one step. -/
theorem Token.scans {a : List Char} {e : Event} (h : Token a e) (htext : ∀ s, e ≠ .text s) (opened : List String)
    (rest : List Char) : Scans opened (a ++ rest) [e] (e.opens ++ opened) rest := by
  obtain ⟨c, r, rfl, -⟩ := h.exists_head
  refine .single (next_of_token h opened fun s hs => absurd hs (htext s)) ?_
  simp only [List.length_append, List.length_cons]
  omega

theorem EndTag.scans {z : List Char} {name : String} (h : EndTag z name) (opened : List String) (rest : List Char) :
    Scans (name :: opened) (z ++ rest) [.closing] opened rest := by
  refine .single (next_of_endTag h opened rest) ?_
  obtain ⟨cs, -, rfl, -⟩ := h
  simp only [List.length_append, List.length_cons]
  omega

theorem IsElement.head_append {scope : Scope} {a : List Char} {x : Element} (h : IsElement scope a x)
    (rest : List Char) : ∀ c ∈ (a ++ rest).head?, isText c = false := by
  cases h with
  | empty htag _ => exact htag.head_append (by simp) rest
  | tags htag _ _ _ =>
    rw [List.append_assoc]
    exact htag.head_append (by simp) _

/-- Events that are read as one element. -/
inductive Reads (scope : Scope) : List Event → Element → Prop
  | empty {name : String} {bs : List Binding} {p : Partial} (h : scope.start name bs = .ok p) :
    Reads scope [.empty name bs] p.close
  | tags {name : String} {bs : List Binding} {p : Partial} {es : List Event} {t : String} {xs : List Element}
    (h : scope.start name bs = .ok p) (hcontent : AddsIn p.scope es t xs) :
    Reads scope (.opening name bs :: (es ++ [.closing])) (p.fill t xs).close

theorem Reads.addsIn {scope : Scope} {es : List Event} {x : Element} (h : Reads scope es x) :
    AddsIn scope es "" [x] := by
  intro failure top outer more hscope
  cases h with
  | empty h =>
    rw [List.cons_append, List.nil_append, build, hscope]
    simp only [h, bind, Except.bind]
    rw [Partial.addChild_eq]
  | tags h hcontent =>
    rw [List.cons_append, build, hscope, List.append_assoc]
    simp only [h, bind, Except.bind]
    rw [hcontent _ _ _ _ rfl, List.cons_append, List.nil_append, build, Partial.addChild_eq]

theorem Reads.root {es : List Event} {x : Element} (h : Reads .initial es x) (failure : Option Malformed)
    (more : List Event) : root failure (es ++ more) = finish x more failure := by
  cases h with
  | empty h =>
    rw [List.cons_append, List.nil_append, Xml.root]
    simp only [h, bind, Except.bind]
  | tags h hcontent =>
    rw [List.cons_append, Xml.root, List.append_assoc]
    simp only [h, bind, Except.bind]
    rw [hcontent _ _ _ _ rfl, List.cons_append, List.nil_append, build]

mutual
/-- An element is read wherever it stands. -/
theorem scans_element : ∀ {scope : Scope} {a : List Char} {x : Element}, IsElement scope a x →
    ∀ (opened : List String) (rest : List Char), ∃ es, Scans opened (a ++ rest) es opened rest ∧ Reads scope es x
  | scope, _, _, .empty htag hname, opened, rest => by
    have hstart := Scope.start_eq_ok_iff.2 ⟨_, _, hname, rfl⟩
    exact ⟨_, htag.scans (by simp) opened rest, .empty hstart⟩
  | scope, _, _, @IsElement.tags _ a cs z name part ns bs t xs htag hname hcontent hend, opened, rest => by
    have hstart := Scope.start_eq_ok_iff.2 ⟨_, _, hname, rfl⟩
    have hclosing := hend.scans opened rest
    obtain ⟨r, rfl⟩ : ∃ r, z = '<' :: r := by
      obtain ⟨content, -, rfl, -⟩ := hend
      exact ⟨_, rfl⟩
    obtain ⟨es, hscans, hadds⟩ := scans_content hcontent (name :: opened) [] (r ++ rest) (by simp)
    refine ⟨.opening name bs :: (es ++ [.closing]), ?_, ?_⟩
    · rw [List.append_assoc, List.append_assoc]
      exact (htag.scans (by simp) opened _).trans (hscans.trans hclosing)
    · have hreads := Reads.tags hstart hadds
      simpa [Partial.fill, Partial.close] using hreads

/-- Content is read behind a run of text that is still read on: text makes the run longer, and any other piece and a
child ends it. -/
theorem scans_content : ∀ {scope : Scope} {cs : List Char} {t : String} {xs : List Element}, IsContent scope cs t xs →
    ∀ (opened : List String) (run rest : List Char), (∀ c ∈ run, isText c = true) →
      ∃ es, Scans opened (run ++ (cs ++ '<' :: rest)) es opened ('<' :: rest) ∧
        AddsIn scope es (String.ofList run ++ t) xs
  | scope, _, _, _, .nil, opened, run, rest, hrun => by
    have hscans := (Scans.refl opened ('<' :: rest)).run hrun (by simp [isText])
    exact ⟨_, hscans, (AddsIn.run scope run).append (.nil scope)⟩
  | scope, _, _, _, @IsContent.piece _ a cs e s t xs htoken hread hmore, opened, run, rest, hrun => by
    by_cases htext : ∃ r, e = .text r
    · obtain ⟨r, rfl⟩ := htext
      cases hread
      obtain ⟨rfl, hr⟩ := htoken.of_text
      have hlonger : ∀ c ∈ run ++ a, isText c = true := by
        intro c hc
        rcases List.mem_append.1 hc with hc | hc
        · exact hrun c hc
        · exact hr c hc
      have hall := scans_content hmore opened (run ++ a) rest hlonger
      simpa only [List.append_assoc, String.ofList_append, String.append_assoc] using hall
    · have htext : ∀ r, e ≠ .text r := fun r hr => htext ⟨r, hr⟩
      obtain ⟨es, hscans, hadds⟩ := scans_content hmore opened [] rest (by simp)
      have hopens : e.opens = [] := by
        cases e with
        | opening _ _ => cases hread
        | _ => rfl
      have htoken' := htoken.scans htext opened (cs ++ '<' :: rest)
      rw [hopens] at htoken'
      have hall := (htoken'.trans hscans).run hrun (htoken.head_append htext _)
      refine ⟨_, by simpa using hall, (AddsIn.run scope run).append ((AddsIn.event scope hread).append ?_)⟩
      simpa using hadds
  | scope, _, _, _, @IsContent.child _ a cs x t xs helement hmore, opened, run, rest, hrun => by
    obtain ⟨es, hscans, hadds⟩ := scans_content hmore opened [] rest (by simp)
    obtain ⟨es', hscans', hreads⟩ := scans_element helement opened (cs ++ '<' :: rest)
    have hall := (hscans'.trans hscans).run hrun (helement.head_append _)
    refine ⟨_, by simpa using hall, ?_⟩
    have hadds' := (AddsIn.run scope run).append (hreads.addsIn.append hadds)
    simpa using hadds'
end

/-! ## What is read is written -/

theorem Taken.length_pos {opened opened' : List String} {a : List Char} {e : Event} (h : Taken opened a e opened') :
    0 < a.length := by
  cases h with
  | token h =>
    obtain ⟨c, r, rfl, -⟩ := h.exists_head
    exact Nat.succ_pos _
  | closing h =>
    obtain ⟨cs, -, rfl, -⟩ := h
    exact Nat.succ_pos _

theorem next_ne_none (opened : List String) (c : Char) (r : List Char) : next opened (c :: r) ≠ .ok none := by
  intro h
  unfold next at h
  split at h
  · rename_i heq
    cases heq
  · obtain ⟨found, -, heq⟩ := exists_ok_of_map h
    cases heq
  · obtain ⟨found, -, heq⟩ := exists_ok_of_map h
    cases heq
  · cases h

/-- A scan with enough fuel gives an event and goes on behind it, or ends with the text or with what is wrong. -/
theorem scanFrom_cases {fuel : Nat} {opened : List String} {cs : List Char} (hfuel : cs.length < fuel) :
    (∃ a e opened' rest fuel', cs = a ++ rest ∧ Taken opened a e opened' ∧ rest.length < fuel' ∧ fuel' < fuel ∧
      scanFrom fuel opened cs =
        ⟨e :: (scanFrom fuel' opened' rest).events, (scanFrom fuel' opened' rest).failure⟩) ∨
    (cs = [] ∧ scanFrom fuel opened cs = ⟨[], none⟩) ∨ ∃ fault, scanFrom fuel opened cs = ⟨[], some fault⟩ := by
  cases fuel with
  | zero => omega
  | succ fuel =>
    rw [scanFrom]
    cases hnext : next opened cs with
    | error fault => exact .inr (.inr ⟨fault, rfl⟩)
    | ok found =>
      cases found with
      | none =>
        refine .inr (.inl ⟨?_, rfl⟩)
        cases cs with
        | nil => rfl
        | cons c r => exact absurd hnext (next_ne_none opened c r)
      | some taken =>
        obtain ⟨e, opened', rest⟩ := taken
        obtain ⟨a, rfl, htaken⟩ := taken_of_next hnext
        have hlength := htaken.length_pos
        rw [List.length_append] at hfuel
        exact .inl ⟨a, e, opened', rest, fuel, rfl, htaken, by omega, Nat.lt_succ_self _, rfl⟩

/-- What is read inside an open element is content up to its end tag, and the reading goes on behind it. -/
theorem content_of_build (fuel : Nat) : ∀ {name : String} {opened : List String} {cs : List Char} {top : Partial}
    {outer : List Partial} {x : Element}, cs.length < fuel →
    build (scanFrom fuel (name :: opened) cs).failure top outer (scanFrom fuel (name :: opened) cs).events = .ok x →
    ∃ b t xs z rest fuel', cs = b ++ (z ++ rest) ∧ IsContent top.scope b t xs ∧ EndTag z name ∧
      rest.length < fuel' ∧ fuel' < fuel ∧
      build (scanFrom fuel' opened rest).failure (top.fill t xs) outer
        (.closing :: (scanFrom fuel' opened rest).events) = .ok x := by
  induction fuel using Nat.strongRecOn with
  | _ fuel ih =>
    intro name opened cs top outer x hfuel h
    rcases scanFrom_cases hfuel with ⟨a, e, opened', rest, fuel', rfl, htaken, hrest, hless, hscan⟩ | ⟨-, hscan⟩ |
      ⟨fault, hscan⟩
    · rw [hscan] at h
      simp only at h
      cases htaken with
      | closing hend =>
        exact ⟨[], "", [], a, rest, fuel', rfl, .nil, hend, hrest, hless, by simpa using h⟩
      | token htoken =>
        cases hread : e.read? with
        | some s =>
          rw [build_of_read hread] at h
          have hopens : e.opens = [] := by
            cases e with
            | opening _ _ => cases hread
            | _ => rfl
          rw [hopens] at h
          obtain ⟨b, t, xs, z, rest, fuel'', rfl, hcontent, hend, hrest, hless', h⟩ := ih fuel' hless hrest h
          rw [Partial.fill_fill, List.nil_append] at h
          exact ⟨a ++ b, s ++ t, xs, z, rest, fuel'', by simp, .piece htoken hread hcontent, hend, hrest,
            hless'.trans hless, h⟩
        | none =>
          cases e with
          | text _ | cdata _ | reference _ | aside => cases hread
          | closing => exact absurd rfl htoken.ne_closing
          | empty n bs =>
            rw [build] at h
            obtain ⟨p, hstart, h⟩ := exists_ok_of_bind h
            obtain ⟨ns, part, hname, rfl⟩ := Scope.start_eq_ok_iff.1 hstart
            rw [Partial.addChild_eq] at h
            obtain ⟨b, t, xs, z, rest, fuel'', rfl, hcontent, hend, hrest, hless', h⟩ := ih fuel' hless hrest h
            rw [Partial.fill_fill, String.empty_append] at h
            exact ⟨a ++ b, t, _, z, rest, fuel'', by simp, .child (.empty htoken hname) hcontent, hend, hrest,
              hless'.trans hless, h⟩
          | opening n bs =>
            rw [build] at h
            obtain ⟨p, hstart, h⟩ := exists_ok_of_bind h
            obtain ⟨ns, part, hname, rfl⟩ := Scope.start_eq_ok_iff.1 hstart
            -- the child is content of its own, and what follows its end tag is read on inside this element
            obtain ⟨b, t, xs, z, rest, fuel'', rfl, hinside, hend, hrest, hless', h⟩ := ih fuel' hless hrest h
            rw [build, Partial.addChild_eq] at h
            have hless := hless'.trans hless
            obtain ⟨b', t', xs', z', rest', fuel', rfl, hcontent, hend', hrest', hless', h⟩ := ih fuel'' hless hrest h
            rw [Partial.fill_fill, String.empty_append] at h
            refine ⟨a ++ (b ++ z) ++ b', t', _, z', rest', fuel', by simp,
              .child (.tags htoken hname hinside hend) hcontent, hend', hrest', hless'.trans hless, ?_⟩
            simpa [Partial.fill, Partial.close] using h
    · rw [hscan] at h
      cases h
    · rw [hscan] at h
      cases h

/-! ## Documents -/

/-- What may stand in front of the root element. -/
inductive IsProlog : List Char → Prop
  | nil : IsProlog []
  | blank {c : Char} {cs : List Char} (h : Text.isAsciiBlank c = true) (hmore : IsProlog cs) : IsProlog (c :: cs)
  | aside {a cs : List Char} (h : IsAside a) (hmore : IsProlog cs) : IsProlog (a ++ cs)

theorem IsProlog.blanks {cs : List Char} (h : IsProlog cs) : ∀ {run : List Char},
    (∀ c ∈ run, Text.isAsciiBlank c = true) → IsProlog (run ++ cs)
  | [], _ => h
  | c :: _, hrun => .blank (hrun c List.mem_cons_self) (h.blanks fun d hd => hrun d (List.mem_cons_of_mem c hd))

theorem isText_of_isAsciiBlank {c : Char} (h : Text.isAsciiBlank c = true) : isText c = true := by
  rw [isText, Bool.and_eq_true, decide_eq_true_eq, decide_eq_true_eq]
  constructor <;> rintro rfl <;> cases h

/-- Is there an event at the front of the text, or nothing at all? -/
def Begins (cs : List Char) : Prop := cs = [] ∨ ∃ a e rest, Token a e ∧ cs = a ++ rest

/-- The characters of a document without its byte order mark. -/
def unmarked : List Char → List Char
  | '\ufeff' :: r => r
  | cs => cs

theorem scan_eq (s : String) : scan s = scanFrom ((unmarked s.toList).length + 1) [] (unmarked s.toList) := by
  unfold scan unmarked
  rfl

theorem root_run {run : List Char} (hrun : ∀ c ∈ run, Text.isAsciiBlank c = true) (failure : Option Malformed)
    (more : List Event) : root failure (textEvents run ++ more) = root failure more := by
  unfold textEvents
  split
  · rfl
  · rw [List.cons_append, List.nil_append, root, String.toList_ofList, if_pos (List.all_eq_true.2 hrun)]

theorem scans_prolog {cs : List Char} (h : IsProlog cs) : ∀ {run rest : List Char},
    (∀ c ∈ run, Text.isAsciiBlank c = true) → (∀ c ∈ rest.head?, isText c = false) →
    ∃ es, Scans [] (run ++ (cs ++ rest)) es [] rest ∧ ∀ failure more, root failure (es ++ more) = root failure more := by
  induction h with
  | nil =>
    intro run rest hrun hrest
    have hscans := (Scans.refl [] rest).run (fun c hc => isText_of_isAsciiBlank (hrun c hc)) hrest
    exact ⟨textEvents run ++ [], hscans, fun failure more => by rw [List.append_nil, root_run hrun]⟩
  | @blank c cs h _ ih =>
    intro run rest hrun hrest
    have hlonger : ∀ d ∈ run ++ [c], Text.isAsciiBlank d = true := by
      intro d hd
      rcases List.mem_append.1 hd with hd | hd
      · exact hrun d hd
      · rwa [List.mem_singleton.1 hd]
    have hall := ih hlonger hrest
    simpa using hall
  | @aside a cs h _ ih =>
    intro run rest hrun hrest
    obtain ⟨es, hscans, hroot⟩ := @ih [] rest (by simp) hrest
    have haside := Token.aside h
    have hall := ((haside.scans (by simp) [] (cs ++ rest)).trans hscans).run
      (fun c hc => isText_of_isAsciiBlank (hrun c hc)) (haside.head_append (by simp) _)
    refine ⟨_, by simpa using hall, fun failure more => ?_⟩
    rw [List.append_assoc, root_run hrun, List.cons_append, root]
    exact hroot failure more

theorem Token.isAside {a : List Char} (h : Token a .aside) : IsAside a := by
  cases h with
  | aside h => exact h
  | tag _ _ hread => rcases startTag_cases hread with ⟨name, bs, heq⟩ | ⟨name, bs, heq⟩ <;> cases heq

theorem Token.exists_next {a : List Char} {e : Event} (h : Token a e) (rest : List Char) :
    ∃ found, next [] (a ++ rest) = .ok (some found) := by
  by_cases htext : ∃ s, e = .text s
  · obtain ⟨c, r, rfl, hc⟩ := h.exists_head
    have hc := hc.2 htext
    rw [isText, Bool.and_eq_true, decide_eq_true_eq, decide_eq_true_eq] at hc
    rw [List.cons_append]
    unfold next
    split
    · rename_i heq
      cases heq
    · rename_i heq
      exact absurd (List.cons.inj heq).1 hc.1
    · rename_i heq
      exact absurd (List.cons.inj heq).1 hc.2
    · exact ⟨_, rfl⟩
  · exact ⟨_, next_of_token h [] fun s hs => absurd ⟨s, hs⟩ htext⟩

/-- Of what follows the root element, one event is looked at. -/
theorem finish_eq_ok_iff {fuel : Nat} {rest : List Char} (hfuel : rest.length < fuel) {p x : Element} :
    finish p (scanFrom fuel [] rest).events (scanFrom fuel [] rest).failure = .ok x ↔ p = x ∧ Begins rest := by
  constructor
  · intro h
    rcases scanFrom_cases hfuel with ⟨a, e, opened', r, fuel', rfl, htaken, -, -, hscan⟩ | ⟨rfl, hscan⟩ | ⟨fault, hscan⟩
    · rw [hscan, finish] at h
      · cases h
        cases htaken with
        | token htoken => exact ⟨rfl, .inr ⟨a, e, r, htoken, rfl⟩⟩
      · simp
    · rw [hscan] at h
      cases h
      exact ⟨rfl, .inl rfl⟩
    · rw [hscan] at h
      cases h
  · rintro ⟨rfl, rfl | ⟨a, e, r, htoken, rfl⟩⟩
    · rw [scanFrom_nil]
      rfl
    · cases fuel with
      | zero => omega
      | succ fuel =>
        obtain ⟨⟨e', opened', r'⟩, hnext⟩ := htoken.exists_next r
        rw [scanFrom, hnext]
        rfl

theorem document_of_root (fuel : Nat) : ∀ {cs : List Char} {x : Element}, cs.length < fuel →
    root (scanFrom fuel [] cs).failure (scanFrom fuel [] cs).events = .ok x →
    ∃ prolog a tail, cs = prolog ++ (a ++ tail) ∧ IsProlog prolog ∧ IsElement .initial a x ∧ Begins tail := by
  induction fuel using Nat.strongRecOn with
  | _ fuel ih =>
    intro cs x hfuel h
    rcases scanFrom_cases hfuel with ⟨a, e, opened', rest, fuel', rfl, htaken, hrest, hless, hscan⟩ | ⟨-, hscan⟩ |
      ⟨fault, hscan⟩
    · rw [hscan] at h
      simp only at h
      cases htaken with
      | token htoken =>
        cases e with
        | cdata _ | reference _ => cases h
        | closing => exact absurd rfl htoken.ne_closing
        | text s =>
          obtain ⟨rfl, -⟩ := htoken.of_text
          rw [root, String.toList_ofList] at h
          split at h
          · rename_i hblank
            obtain ⟨prolog, b, tail, rfl, hprolog, helement, htail⟩ := ih fuel' hless hrest h
            exact ⟨a ++ prolog, b, tail, by simp, hprolog.blanks (List.all_eq_true.1 hblank), helement, htail⟩
          · cases h
        | aside =>
          rw [root] at h
          obtain ⟨prolog, b, tail, rfl, hprolog, helement, htail⟩ := ih fuel' hless hrest h
          exact ⟨a ++ prolog, b, tail, by simp, .aside htoken.isAside hprolog, helement, htail⟩
        | empty n bs =>
          rw [root] at h
          obtain ⟨p, hstart, h⟩ := exists_ok_of_bind h
          obtain ⟨ns, part, hname, rfl⟩ := Scope.start_eq_ok_iff.1 hstart
          obtain ⟨rfl, htail⟩ := (finish_eq_ok_iff hrest).1 h
          exact ⟨[], a, rest, rfl, .nil, .empty htoken hname, htail⟩
        | opening n bs =>
          rw [root] at h
          obtain ⟨p, hstart, h⟩ := exists_ok_of_bind h
          obtain ⟨ns, part, hname, rfl⟩ := Scope.start_eq_ok_iff.1 hstart
          obtain ⟨b, t, xs, z, rest, fuel'', rfl, hcontent, hend, hrest, -, h⟩ := content_of_build fuel' hrest h
          rw [build] at h
          obtain ⟨rfl, htail⟩ := (finish_eq_ok_iff hrest).1 h
          refine ⟨[], a ++ (b ++ z), rest, by simp, .nil, ?_, htail⟩
          have helement := IsElement.tags htoken hname hcontent hend
          simpa [Partial.fill, Partial.close] using helement
    · rw [hscan] at h
      cases h
    · rw [hscan] at h
      cases h

theorem parse_of_document {text : String} {prolog a tail : List Char} {x : Element}
    (htext : unmarked text.toList = prolog ++ (a ++ tail)) (hprolog : IsProlog prolog)
    (helement : IsElement .initial a x) (htail : Begins tail) : parse text = .ok x := by
  rw [parse, scan_eq, htext]
  obtain ⟨es, hscans, hroot⟩ := @scans_prolog prolog hprolog [] (a ++ tail) (by simp) (helement.head_append tail)
  obtain ⟨es', hscans', hreads⟩ := scans_element helement [] tail
  obtain ⟨fuel, hfuel, hscan⟩ := (hscans.trans hscans').exists_scanFrom (Nat.lt_succ_self _)
  rw [List.nil_append] at hscan
  rw [hscan, List.append_assoc]
  simp only [hroot, hreads.root]
  exact (finish_eq_ok_iff hfuel).2 ⟨rfl, htail⟩

/-- A text is accepted just if, behind a byte order mark or none, it is a prolog, an element whose tags match and whose
prefixes are declared, and a text that begins well, of which no more than the first event is looked at; and that element
is what is read. -/
theorem parse_eq_ok_iff {text : String} {x : Element} :
    parse text = .ok x ↔
      ∃ prolog a tail, unmarked text.toList = prolog ++ (a ++ tail) ∧ IsProlog prolog ∧ IsElement .initial a x ∧
        Begins tail := by
  constructor
  · intro h
    rw [parse, scan_eq] at h
    exact document_of_root _ (Nat.lt_succ_self _) h
  · rintro ⟨prolog, a, tail, htext, hprolog, helement, htail⟩
    exact parse_of_document htext hprolog helement htail

theorem IsElement.begins {scope : Scope} {a : List Char} {x : Element} (h : IsElement scope a x) (rest : List Char) :
    Begins (a ++ rest) := by
  cases h with
  | empty htag _ => exact .inr ⟨_, _, rest, htag, rfl⟩
  | tags htag _ _ _ => exact .inr ⟨_, _, _, htag, List.append_assoc ..⟩

theorem IsProlog.begins {cs : List Char} (h : IsProlog cs) : Begins cs := by
  cases h with
  | nil => exact .inl rfl
  | @blank c cs h _ => exact .inr ⟨[c], _, cs, .text (by simp) (by simpa using isText_of_isAsciiBlank h), rfl⟩
  | aside h _ => exact .inr ⟨_, _, _, .aside h, rfl⟩

/-- Is the text one element with nothing around it but blanks, comments, instructions and document types? -/
def IsWhole (text : String) : Prop :=
  ∃ prolog a x misc, unmarked text.toList = prolog ++ (a ++ misc) ∧ IsProlog prolog ∧ IsElement .initial a x ∧
    IsProlog misc

theorem IsWhole.exists_parse {text : String} (h : IsWhole text) : ∃ x, parse text = .ok x := by
  obtain ⟨prolog, a, x, misc, htext, hprolog, helement, hmisc⟩ := h
  exact ⟨x, parse_of_document htext hprolog helement hmisc.begins⟩

/-- Behind the root element, a second one goes unnoticed, whatever follows it. -/
theorem parse_of_second {text : String} {prolog a b rest : List Char} {x y : Element}
    (htext : unmarked text.toList = prolog ++ (a ++ (b ++ rest))) (hprolog : IsProlog prolog)
    (hroot : IsElement .initial a x) (hsecond : IsElement .initial b y) : parse text = .ok x :=
  parse_of_document htext hprolog hroot (hsecond.begins rest)

theorem isElement_emptyTag {name : String} (h : IsName name) :
    IsElement .initial (emptyTagChars none name none) (.mk none name "" []) := by
  have hread := @startTag_empty name none none h (by simp)
  have hcontent := @tagContent_tag name none none h (by simp) ['/', '>']
  obtain ⟨-, htext⟩ := tagText_of_tagContent _ hcontent
  obtain ⟨c, hc⟩ := h.exists_head
  obtain ⟨r, hname⟩ := List.head?_eq_some_iff.1 hc
  have hmark := h.not_mark c (by simp [hname])
  have hhead : ∀ d ∈ (name.toList ++ declaration none none ++ ['/']).head?, d ≠ '!' ∧ d ≠ '?' ∧ d ≠ '/' := by
    intro d hd
    rw [hname] at hd
    cases hd
    refine ⟨?_, ?_, ?_⟩ <;> rintro rfl <;> exact hmark (by decide)
  have htag : Token (emptyTagChars none name none) (.empty name (bindings none none)) := by
    have htag := Token.tag hhead htext hread
    simpa [emptyTagChars] using htag
  have hcolon : ':' ∉ name.toList := fun hmem => h.not_mark _ hmem (by decide)
  exact .empty htag (.plain hcolon)

/-- In front of a tag there is no prolog. -/
theorem IsProlog.eq_nil {cs rest r : List Char} {c : Char} (h : IsProlog cs) (hc : c ≠ '!' ∧ c ≠ '?')
    (heq : cs ++ rest = '<' :: c :: r) : cs = [] := by
  cases h with
  | nil => rfl
  | blank h _ =>
    obtain ⟨rfl, -⟩ := List.cons.inj heq
    cases h
  | aside h _ =>
    cases h with
    | comment _ | doctype _ _ _ =>
      simp only [List.cons_append, List.cons.injEq] at heq
      exact absurd heq.2.1.symm hc.1
    | instruction _ _ =>
      simp only [List.cons_append, List.cons.injEq] at heq
      exact absurd heq.2.1.symm hc.2

/-- A tag at the front of a text is what stands between its brackets. -/
theorem Token.startTag_eq {a cs content rest : List Char} {e : Event} (h : Token a e)
    (htag : (∃ name bs, e = .opening name bs) ∨ ∃ name bs, e = .empty name bs) (ha : a ++ cs = '<' :: content)
    {body : List Char} (hcontent : tagContent none content = some (body, rest)) :
    startTag body = .ok e ∧ cs = rest := by
  cases h with
  | text _ _ | reference _ | cdata _ | aside _ => simp at htag
  | @tag body' e hhead h hread =>
    have hbody := tagContent_of_tagText h cs
    simp only [List.cons_append, List.append_assoc, List.cons.injEq, true_and, List.nil_append] at ha
    rw [ha, hcontent] at hbody
    cases hbody
    exact ⟨hread, rfl⟩

/-- Two elements in a row are accepted as if only the first were there. -/
theorem secondRoot_accepted :
    parse "<a/><b/>" = .ok (.mk none "a" "" []) ∧
      RequestBody.parse .xml "<a/><b/>" = .ok (.xml (.mk none "a" "" [])) ∧ ¬ IsWhole "<a/><b/>" := by
  have hchars : unmarked "<a/><b/>".toList = ['<', 'a', '/', '>', '<', 'b', '/', '>'] := by decide
  have hfirst := @isElement_emptyTag "a" (by decide)
  have hsecond := @isElement_emptyTag "b" (by decide)
  have hparse : parse "<a/><b/>" = .ok (.mk none "a" "" []) := parse_of_second hchars .nil hfirst hsecond
  refine ⟨hparse, ?_, ?_⟩
  · have hblank : Text.trim "<a/><b/>" ≠ "" := by decide
    rw [RequestBody.parse, if_neg hblank]
    simp only [hparse]
    rfl
  · rintro ⟨prolog, a, x, misc, htext, hprolog, helement, hmisc⟩
    rw [hchars] at htext
    obtain rfl := hprolog.eq_nil (by decide) htext.symm
    have hcontent : tagContent none ['a', '/', '>', '<', 'b', '/', '>'] = some (['a', '/'], ['<', 'b', '/', '>']) := by
      decide
    -- the first tag is that of an empty element, so the second is what follows the root
    cases helement with
    | empty htag _ =>
      obtain ⟨-, hmisc'⟩ := htag.startTag_eq (.inr ⟨_, _, rfl⟩) htext.symm hcontent
      subst hmisc'
      cases hmisc.eq_nil (by decide) (List.append_nil _)
    | tags htag _ _ _ =>
      rw [List.nil_append, List.append_assoc] at htext
      obtain ⟨hread, -⟩ := htag.startTag_eq (.inl ⟨_, _, rfl⟩) htext.symm hcontent
      have hempty : startTag ['a', '/'] = .ok (.empty "a" []) := @startTag_empty "a" none none (by decide) (by simp)
      rw [hempty] at hread
      cases hread

end YangSubscriptions.Xml
