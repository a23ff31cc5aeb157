import YangSubscriptions.Config.SocketAddress
import YangSubscriptions.Proofs.Text.Blank
import YangSubscriptions.Proofs.Text.Digits

/-!
# Socket addresses are read back as they are written

An address is valid if its parts have their size. What is parsed is valid (`valid_of_parse?`), and what is valid is read
back from how it is written (`parse?_render`), whether zero groups are left out or the last two groups are dotted.
-/

namespace YangSubscriptions.SocketAddress

/-- Do the parts have their size? -/
def Valid : SocketAddress → Prop
  | .v4 octets port => octets.length = 4 ∧ (∀ o ∈ octets, o < 256) ∧ port < 65536
  | .v6 groups scope port => groups.length = 8 ∧ (∀ g ∈ groups, g < 65536) ∧ scope < UInt32.size ∧ port < 65536

/-! ## Numbers -/

theorem digit?_digitChar {radix : Nat} (hradix : radix = 10 ∨ radix = 16) :
    ∀ d < radix, digit? radix d.digitChar = some d := by
  rcases hradix with rfl | rfl <;> decide

/-- A number is read back with what follows it, if no digit does. -/
theorem number?_toDigits {radix width bound n : Nat} {padded : Bool} {rest : List Char}
    (hradix : radix = 10 ∨ radix = 16) (hn : n < bound) (hwidth : (Nat.toDigits radix n).length ≤ width)
    (hrest : ∀ c ∈ rest.head?, digit? radix c = none) :
    number? radix width bound padded (Nat.toDigits radix n ++ rest) = some (n, rest) := by
  have hbase : 1 < radix := by rcases hradix with rfl | rfl <;> decide
  have hdigits : ∀ c ∈ Nat.toDigits radix n, (digit? radix c).isSome = true :=
    Text.forall_mem_toDigits hbase (fun d hd => by rw [digit?_digitChar hradix d hd]; rfl) n
  have hstop : ∀ c ∈ rest.head?, (digit? radix c).isSome = false := fun c hc => by rw [hrest c hc]; rfl
  have htake : (Nat.toDigits radix n ++ rest).takeWhile (fun c => (digit? radix c).isSome) = Nat.toDigits radix n :=
    Text.takeWhile_append_eq hdigits hstop
  have hvalue : (Nat.toDigits radix n).foldl (fun n c => radix * n + (digit? radix c).getD 0) 0 = n :=
    Text.foldl_toDigits hbase (fun d hd => by rw [digit?_digitChar hradix d hd]; rfl) n
  have hzero : ¬ ((Nat.toDigits radix n).head? = some '0' ∧ 1 < (Nat.toDigits radix n).length) := by
    rintro ⟨hhead, hlength⟩
    by_cases hn : n = 0
    · subst hn
      simp at hlength
    · obtain ⟨c, ds, hds, hc⟩ := Text.exists_toDigits hbase hn
      rw [hds] at hhead
      exact hc (Option.some.inj hhead)
  have hne : (Nat.toDigits radix n).isEmpty = false := by simp [Nat.toDigits_ne_nil]
  have hgood : ¬ (false = true ∨ width < (Nat.toDigits radix n).length ∨ bound ≤ n ∨
      (!padded && (Nat.toDigits radix n).head? = some '0' && 1 < (Nat.toDigits radix n).length) = true) := by
    simp only [Bool.false_eq_true, false_or, not_or, Nat.not_lt, Nat.not_le, Bool.and_eq_true, decide_eq_true_eq]
    exact ⟨hwidth, hn, fun h => hzero ⟨h.1.2, h.2⟩⟩
  rw [number?]
  simp only [htake, hvalue, hne]
  rw [if_neg hgood, List.drop_left]

/-- Where there is no digit there is no number. -/
theorem number?_eq_none {radix width bound : Nat} {padded : Bool} {cs : List Char}
    (h : ∀ c ∈ cs.head?, digit? radix c = none) : number? radix width bound padded cs = none := by
  have hempty : cs.takeWhile (fun c => (digit? radix c).isSome) = [] := by
    cases cs with
    | nil => rfl
    | cons c r => simp [h c rfl]
  rw [number?]
  simp [hempty]

theorem lt_of_number? {radix width bound n : Nat} {padded : Bool} {cs rest : List Char}
    (h : number? radix width bound padded cs = some (n, rest)) : n < bound := by
  rw [number?] at h
  split at h
  · cases h
  · rename_i hno
    cases h
    simp only [not_or] at hno
    exact Nat.not_le.1 hno.2.2.1

theorem decimal?_decimal {bound n : Nat} {rest : List Char} (hn : n < bound)
    (hrest : ∀ c ∈ rest.head?, digit? 10 c = none) : decimal? bound (decimal n ++ rest) = some (n, rest) :=
  number?_toDigits (.inl rfl) hn (by simp [decimal]) hrest

theorem octet?_decimal {n : Nat} {rest : List Char} (hn : n < 256) (hrest : ∀ c ∈ rest.head?, digit? 10 c = none) :
    octet? (decimal n ++ rest) = some (n, rest) :=
  number?_toDigits (.inl rfl) hn ((Nat.length_toDigits_le_iff (by decide) (by decide)).2 (by omega)) hrest

theorem group?_toDigits {n : Nat} {rest : List Char} (hn : n < 65536) (hrest : ∀ c ∈ rest.head?, digit? 16 c = none) :
    number? 16 4 65536 true (Nat.toDigits 16 n ++ rest) = some (n, rest) :=
  number?_toDigits (.inr rfl) hn ((Nat.length_toDigits_le_iff (by decide) (by decide)).2 (by omega)) hrest

/-! ## Parts between marks -/

theorem after?_cons (c : Char) (r : List Char) : after? c (c :: r) = some r := by
  rw [after?, if_pos rfl]

theorem after?_eq_some {c : Char} {cs r : List Char} (h : after? c cs = some r) : cs = c :: r := by
  cases cs with
  | nil => cases h
  | cons d ds =>
    rw [after?] at h
    split at h
    · rename_i hd
      cases h
      rw [hd]
    · cases h

theorem after?_eq_none {c : Char} {cs : List Char} (h : c ∉ cs.head?) : after? c cs = none := by
  cases hafter : after? c cs with
  | none => rfl
  | some r =>
    rw [after?_eq_some hafter] at h
    exact absurd rfl h

/-- A text that does not begin with a digit, not even a hexadecimal one. -/
def Stops (rest : List Char) : Prop := ∀ c ∈ rest.head?, digit? 16 c = none

theorem digit?_ten {c : Char} (h : digit? 16 c = none) : digit? 10 c = none := by
  unfold digit? at h ⊢
  simp only at h ⊢
  split_ifs at h ⊢ <;> first | rfl | omega

theorem Stops.ten {rest : List Char} (h : Stops rest) : ∀ c ∈ rest.head?, digit? 10 c = none := fun c hc =>
  digit?_ten (h c hc)

theorem stops_cons {c : Char} (h : digit? 16 c = none) (r : List Char) : Stops (c :: r) := by
  intro d hd
  cases hd
  exact h

theorem dotted_four (a b c d : Nat) (rest : List Char) :
    dotted [a, b, c, d] ++ rest =
      decimal a ++ '.' :: (decimal b ++ '.' :: (decimal c ++ '.' :: (decimal d ++ rest))) := by
  simp [dotted, List.intercalate]

theorem octets?_dotted {a b c d : Nat} {rest : List Char} (ha : a < 256) (hb : b < 256) (hc : c < 256) (hd : d < 256)
    (hrest : Stops rest) : octets? (dotted [a, b, c, d] ++ rest) = some ([a, b, c, d], rest) := by
  have hdot : ∀ r, Stops ('.' :: r) := stops_cons (by decide)
  rw [dotted_four, octets?, octet?_decimal ha (hdot _).ten]
  simp only [bind, Option.bind, after?_cons, octet?_decimal hb (hdot _).ten, octet?_decimal hc (hdot _).ten,
    octet?_decimal hd hrest.ten]

theorem port?_decimal {n : Nat} (hn : n < 65536) : port? (':' :: decimal n) = some (n, []) := by
  have hdecimal := @decimal?_decimal 65536 n [] hn (by simp)
  rw [List.append_nil] at hdecimal
  rw [port?, after?_cons]
  exact hdecimal

/-! ## Groups -/

theorem exists_of_number? {radix width bound n : Nat} {padded : Bool} {cs rest : List Char}
    (h : number? radix width bound padded cs = some (n, rest)) :
    ∃ ds, cs = ds ++ rest ∧ ∀ c ∈ ds, (digit? radix c).isSome = true := by
  rw [number?] at h
  split at h
  · cases h
  · cases h
    refine ⟨cs.takeWhile fun c => (digit? radix c).isSome, ?_, fun c hc =>
      List.mem_takeWhile_imp (p := fun c => (digit? radix c).isSome) hc⟩
    have hsplit := List.takeWhile_append_dropWhile (p := fun c => (digit? radix c).isSome) (l := cs)
    have hdrop := @List.drop_left _ (cs.takeWhile fun c => (digit? radix c).isSome)
      (cs.dropWhile fun c => (digit? radix c).isSome)
    rw [hsplit] at hdrop
    rw [hdrop]
    exact hsplit.symm

theorem octets?_of_stops {rest : List Char} (h : Stops rest) : octets? rest = none := by
  rw [octets?, octet?, number?_eq_none h.ten]
  rfl

/-- A group that no point follows is not in dotted form. -/
theorem octets?_eq_none {ds rest : List Char} (hds : ∀ c ∈ ds, (digit? 16 c).isSome = true) (hrest : Stops rest)
    (hdot : '.' ∉ rest.head?) : octets? (ds ++ rest) = none := by
  cases hoctets : octets? (ds ++ rest) with
  | none => rfl
  | some found =>
    rw [octets?] at hoctets
    obtain ⟨⟨a, cs⟩, ha, hoctets⟩ := Option.bind_eq_some_iff.1 hoctets
    obtain ⟨r, hr, -⟩ := Option.bind_eq_some_iff.1 hoctets
    obtain ⟨ds', hsplit, hds'⟩ := exists_of_number? ha
    rw [after?_eq_some hr] at hsplit
    -- both sides agree on the first character that is no digit
    have hleft := Text.dropWhile_append_eq hds fun c hc => by rw [hrest c hc]; rfl
    have hright : (ds' ++ '.' :: r).dropWhile (fun c => (digit? 16 c).isSome) = '.' :: r := by
      refine Text.dropWhile_append_eq (fun c hc => ?_) fun c hc => by cases hc; decide
      cases hsixteen : digit? 16 c with
      | some _ => rfl
      | none =>
        have hten := hds' c hc
        rw [digit?_ten hsixteen] at hten
        cases hten
    rw [hsplit, hright] at hleft
    exact absurd (by rw [← hleft]; rfl) hdot

/-- What may stand behind groups: neither a digit nor a point, and no group behind a colon. -/
structure Clear (rest : List Char) : Prop where
  stops : Stops rest
  noDot : '.' ∉ rest.head?
  noGroup : ∀ r, rest = ':' :: r → Stops r

/-- Groups with a colon in front of each, of the first only unless it is the `first` of all. -/
def groupChars (first : Bool) : List Nat → List Char
  | [] => []
  | g :: gs => (if first then [] else [':']) ++ (Nat.toDigits 16 g ++ groupChars false gs)

theorem colons_eq : ∀ gs : List Nat, colons gs = groupChars true gs
  | [] => rfl
  | [g] => by simp [colons, groupChars, List.intercalate]
  | g :: g' :: gs => by
    have hmore := colons_eq (g' :: gs)
    simp only [colons, groupChars, List.intercalate, List.map_cons] at hmore ⊢
    simp [hmore]

theorem Clear.behind {rest : List Char} (h : Clear rest) (gs : List Nat) :
    Stops (groupChars false gs ++ rest) ∧ '.' ∉ (groupChars false gs ++ rest).head? := by
  cases gs with
  | nil => exact ⟨h.stops, h.noDot⟩
  | cons g gs => exact ⟨stops_cons (by decide) _, by simp [groupChars]⟩

/-- Groups are read back, up to what can be no more of them. -/
theorem groups_groupChars : ∀ (gs : List Nat) (first : Bool) (limit : Nat) {rest : List Char}, gs.length ≤ limit →
    (∀ g ∈ gs, g < 65536) → Clear rest → groups first limit (groupChars first gs ++ rest) = (gs, false, rest)
  | [], _, 0, _, _, _, _ => rfl
  | [], true, limit + 1, rest, _, _, hrest => by
    rw [groupChars, List.nil_append, groups]
    simp only [if_true, octets?_of_stops hrest.stops, ite_self, number?_eq_none hrest.stops]
  | [], false, limit + 1, rest, _, _, hrest => by
    rw [groupChars, List.nil_append, groups]
    cases hafter : after? ':' rest with
    | none => simp
    | some r =>
      have hstops := hrest.noGroup r (after?_eq_some hafter)
      simp [octets?_of_stops hstops, number?_eq_none hstops]
  | g :: gs, first, 0, _, hlength, _, _ => by simp at hlength
  | g :: gs, first, limit + 1, rest, hlength, hgs, hrest => by
    have hmore := groups_groupChars gs false limit (Nat.le_of_succ_le_succ hlength)
      (fun g' hg' => hgs g' (List.mem_cons_of_mem g hg')) hrest
    obtain ⟨hstops, hdot⟩ := hrest.behind gs
    have hdigits : ∀ c ∈ Nat.toDigits 16 g, (digit? 16 c).isSome = true :=
      Text.forall_mem_toDigits (by decide) (fun d hd => by rw [digit?_digitChar (.inr rfl) d hd]; rfl) g
    have hoctets := octets?_eq_none hdigits hstops hdot
    have hgroup := group?_toDigits (hgs g List.mem_cons_self) hstops
    have hcolon : (if first then some (groupChars first (g :: gs) ++ rest)
        else after? ':' (groupChars first (g :: gs) ++ rest)) =
        some (Nat.toDigits 16 g ++ (groupChars false gs ++ rest)) := by
      cases first with
      | true => simp [groupChars]
      | false => simp [groupChars, after?_cons]
    rw [groups, hcolon]
    simp only [hoctets, ite_self, hgroup, hmore]

/-! ## Groups left out -/

/-- The run is one of zeros, and no longer than what is there. -/
theorem longestZeros_spec (gs : List Nat) :
    (longestZeros gs).1 + (longestZeros gs).2 ≤ gs.length ∧
      (gs.drop (longestZeros gs).1).take (longestZeros gs).2 = List.replicate (longestZeros gs).2 0 := by
  refine List.foldlRecOn (motive := fun run : Nat × Nat =>
    run.1 + run.2 ≤ gs.length ∧ (gs.drop run.1).take run.2 = List.replicate run.2 0) _ _ (by simp) ?_
  intro best hbest run hrun
  split
  · obtain ⟨i, hi, rfl⟩ := List.mem_map.1 hrun
    rw [List.mem_range] at hi
    have hlength := (List.takeWhile_prefix (· = 0) (l := gs.drop i)).length_le
    rw [List.length_drop] at hlength
    refine ⟨by simp only; omega, ?_⟩
    have htake := @List.take_left _ ((gs.drop i).takeWhile (· = 0)) ((gs.drop i).dropWhile (· = 0))
    rw [List.takeWhile_append_dropWhile] at htake
    simp only [htake]
    exact List.eq_replicate_of_mem fun g hg => by simpa using List.mem_takeWhile_imp hg
  · exact hbest

/-! ## Addresses -/

theorem clear_cons {c : Char} (hdigit : digit? 16 c = none) (hdot : c ≠ '.') (hcolon : c ≠ ':') (r : List Char) :
    Clear (c :: r) where
  stops := stops_cons hdigit r
  noDot := by simpa using hdot
  noGroup := fun _ h => absurd (List.cons.inj h).1 hcolon

theorem clear_doubleColon (r : List Char) : Clear (':' :: ':' :: r) where
  stops := stops_cons (by decide) _
  noDot := by simp
  noGroup := fun _ h => (List.cons.inj h).2 ▸ stops_cons (by decide) r

/-- Around a double colon the groups that are left out are zeros. -/
theorem address?_around {front back : List Nat} {cs r rest : List Char} {isDotted : Bool}
    (hfront : groups true 8 cs = (front, false, ':' :: ':' :: r)) (hlength : front.length ≠ 8)
    (hback : groups true (7 - front.length) r = (back, isDotted, rest)) :
    address? cs = some (front ++ List.replicate (8 - front.length - back.length) 0 ++ back, rest) := by
  rw [address?, hfront]
  simp only [hlength, if_false, Bool.false_eq_true, after?_cons, hback, bind, Option.bind]

theorem groups_mapped {a b : Nat} (ha : a < 65536) (hb : b < 65536) {rest : List Char} (hrest : Stops rest) :
    groups true 7 ("ffff:".toList ++ (dotted [a / 256, a % 256, b / 256, b % 256] ++ rest)) =
      ([0xffff, a, b], true, rest) := by
  have hhex : "ffff:".toList ++ (dotted [a / 256, a % 256, b / 256, b % 256] ++ rest) =
      ['f', 'f', 'f', 'f'] ++ ':' :: (dotted [a / 256, a % 256, b / 256, b % 256] ++ rest) := rfl
  have hstops : ∀ r, Stops (':' :: r) := stops_cons (by decide)
  have hall : ['f', 'f', 'f', 'f'].all (fun c => (digit? 16 c).isSome) = true := by decide
  have hoctets := octets?_eq_none (List.all_eq_true.1 hall)
    (hstops (dotted [a / 256, a % 256, b / 256, b % 256] ++ rest)) (by simp)
  have hgroup := group?_toDigits (n := 0xffff) (by decide)
    (hstops (dotted [a / 256, a % 256, b / 256, b % 256] ++ rest))
  have hdigits : Nat.toDigits 16 0xffff = ['f', 'f', 'f', 'f'] := by decide
  have hdotted := octets?_dotted (a := a / 256) (b := a % 256) (c := b / 256) (d := b % 256) (by omega)
    (Nat.mod_lt _ (by decide)) (by omega) (Nat.mod_lt _ (by decide)) hrest
  rw [hdigits] at hgroup
  rw [hhex, groups, if_pos rfl]
  simp only [hoctets, ite_self, hgroup]
  rw [groups]
  simp [after?_cons, hdotted, Nat.div_add_mod]

/-- Eight groups are read back, whichever zeros were left out. -/
theorem address?_groupsChars {gs : List Nat} (hlength : gs.length = 8) (hgs : ∀ g ∈ gs, g < 65536) {rest : List Char}
    (hrest : Clear rest) : address? (groupsChars gs ++ rest) = some (gs, rest) := by
  unfold groupsChars
  split
  · rename_i a b
    simp only [List.forall_mem_cons] at hgs
    have hfront := groups_groupChars [] true 8 (by simp) (by simp) (clear_doubleColon
      ("ffff:".toList ++ (dotted [a / 256, a % 256, b / 256, b % 256] ++ rest)))
    have hback := groups_mapped hgs.2.2.2.2.2.2.1 hgs.2.2.2.2.2.2.2.1 hrest.stops
    have haddress := address?_around hfront (by simp) hback
    simpa [groupChars] using haddress
  · obtain ⟨hbound, hzeros⟩ := longestZeros_spec gs
    simp only
    split
    · rename_i hlong
      rw [hlength] at hbound
      have hparts : gs.take (longestZeros gs).1 ++ List.replicate (longestZeros gs).2 0 ++
          gs.drop ((longestZeros gs).1 + (longestZeros gs).2) = gs := by
        rw [← hzeros, ← List.drop_drop, List.append_assoc, List.take_append_drop, List.take_append_drop]
      have hcount : 8 - (gs.take (longestZeros gs).1).length -
          (gs.drop ((longestZeros gs).1 + (longestZeros gs).2)).length = (longestZeros gs).2 := by
        rw [List.length_take, List.length_drop]
        omega
      have hfront := groups_groupChars (gs.take (longestZeros gs).1) true 8 (by rw [List.length_take]; omega)
        (fun g hg => hgs g (List.mem_of_mem_take hg))
        (clear_doubleColon (colons (gs.drop ((longestZeros gs).1 + (longestZeros gs).2)) ++ rest))
      have hback := groups_groupChars (gs.drop ((longestZeros gs).1 + (longestZeros gs).2)) true
        (7 - (gs.take (longestZeros gs).1).length) (by rw [List.length_take, List.length_drop]; omega)
        (fun g hg => hgs g (List.mem_of_mem_drop hg)) hrest
      rw [← colons_eq] at hfront hback
      have haddress := address?_around hfront (by rw [List.length_take]; omega) hback
      rw [hcount, hparts] at haddress
      simpa using haddress
    · have := groups_groupChars gs true 8 (Nat.le_of_eq hlength) hgs hrest
      rw [colons_eq, address?, this]
      simp only [hlength, if_true]

/-! ## Round trip -/

theorem scope_of_none {r : List Char} (h : '%' ∉ r.head?) : scope r = (0, r) := by
  rw [scope, after?_eq_none h]
  rfl

theorem scope_decimal {n : Nat} (hn : n < UInt32.size) {rest : List Char} (hrest : Stops rest) :
    scope ('%' :: (decimal n ++ rest)) = (n, rest) := by
  rw [scope, after?_cons]
  simp only [Option.bind, decimal?_decimal hn hrest.ten]

theorem parse4?_chars {octets : List Nat} {port : Nat} (h : (v4 octets port).Valid) :
    parse4? (v4 octets port).chars = some (v4 octets port, []) := by
  obtain ⟨hlength, hoctets, hport⟩ := h
  match octets, hlength with
  | [a, b, c, d], _ =>
    simp only [List.forall_mem_cons] at hoctets
    have hdotted := octets?_dotted hoctets.1 hoctets.2.1 hoctets.2.2.1 hoctets.2.2.2.1
      (stops_cons (c := ':') (by decide) (decimal port))
    rw [parse4?, chars, hdotted]
    simp only [bind, Option.bind, port?_decimal hport]

theorem parse6?_chars {groups : List Nat} {scope port : Nat} (h : (v6 groups scope port).Valid) :
    parse6? (v6 groups scope port).chars = some (v6 groups scope port, []) := by
  obtain ⟨hlength, hgroups, hscope, hport⟩ := h
  have hend : Stops (']' :: ':' :: decimal port) := stops_cons (by decide) _
  by_cases hzero : scope = 0
  · subst hzero
    have hclear : Clear (']' :: ':' :: decimal port) := clear_cons (by decide) (by decide) (by decide) _
    have haddress := address?_groupsChars hlength hgroups hclear
    have hnone := scope_of_none (r := ']' :: ':' :: decimal port) (by simp)
    have hchars : (v6 groups 0 port).chars = '[' :: (groupsChars groups ++ ']' :: ':' :: decimal port) := by
      simp [chars]
    rw [parse6?, hchars]
    simp only [bind, Option.bind, after?_cons, haddress, hnone, port?_decimal hport]
  · have hclear : Clear ('%' :: (decimal scope ++ ']' :: ':' :: decimal port)) :=
      clear_cons (by decide) (by decide) (by decide) _
    have haddress := address?_groupsChars hlength hgroups hclear
    have hsome := scope_decimal hscope hend
    have hchars : (v6 groups scope port).chars =
        '[' :: (groupsChars groups ++ '%' :: (decimal scope ++ ']' :: ':' :: decimal port)) := by
      simp [chars, hzero]
    rw [parse6?, hchars]
    simp only [bind, Option.bind, after?_cons, haddress, hsome, port?_decimal hport]

/-- A valid address is read back from how it is written. -/
theorem parse?_render {a : SocketAddress} (h : a.Valid) : parse? a.render = some a := by
  rw [parse?, render, String.toList_ofList]
  cases a with
  | v4 octets port =>
    rw [parse4?_chars h]
    rfl
  | v6 groups scope port =>
    have hnone : parse4? (v6 groups scope port).chars = none := by
      have hbracket : octets? (v6 groups scope port).chars = none :=
        octets?_of_stops (by
          rw [chars]
          exact stops_cons (c := '[') (by decide) _)
      rw [parse4?, hbracket]
      rfl
    rw [hnone, parse6?_chars h]
    rfl

/-! ## What is parsed -/

theorem valid_of_octets? {cs rest : List Char} {octets : List Nat} (h : octets? cs = some (octets, rest)) :
    octets.length = 4 ∧ ∀ o ∈ octets, o < 256 := by
  rw [octets?] at h
  obtain ⟨⟨a, cs₁⟩, ha, h⟩ := Option.bind_eq_some_iff.1 h
  obtain ⟨cs₂, -, h⟩ := Option.bind_eq_some_iff.1 h
  obtain ⟨⟨b, cs₃⟩, hb, h⟩ := Option.bind_eq_some_iff.1 h
  obtain ⟨cs₄, -, h⟩ := Option.bind_eq_some_iff.1 h
  obtain ⟨⟨c, cs₅⟩, hc, h⟩ := Option.bind_eq_some_iff.1 h
  obtain ⟨cs₆, -, h⟩ := Option.bind_eq_some_iff.1 h
  obtain ⟨⟨d, cs₇⟩, hd, h⟩ := Option.bind_eq_some_iff.1 h
  cases h
  simp only [List.length_cons, List.length_nil, List.forall_mem_cons, List.not_mem_nil, false_imp_iff, implies_true,
    and_true, true_and]
  exact ⟨lt_of_number? ha, lt_of_number? hb, lt_of_number? hc, lt_of_number? hd⟩

theorem valid_of_groups : ∀ (limit : Nat) (first : Bool) (cs : List Char),
    (groups first limit cs).1.length ≤ limit ∧ ∀ g ∈ (groups first limit cs).1, g < 65536
  | 0, _, _ => by simp [groups]
  | limit + 1, first, cs => by
    rw [groups]
    split
    · simp
    · rename_i r _
      split
      · rename_i a b c d rest hdotted
        split at hdotted
        · cases hdotted
        · rename_i hlimit
          obtain ⟨-, hoctets⟩ := valid_of_octets? hdotted
          simp only [List.forall_mem_cons] at hoctets ⊢
          obtain ⟨ha, hb, hc, hd, -⟩ := hoctets
          refine ⟨?_, ?_, ?_, by simp⟩
          · simp only [List.length_cons, List.length_nil]
            omega
          · omega
          · omega
      · split
        · simp
        · rename_i g rest hnumber
          obtain ⟨hlength, hgroups⟩ := valid_of_groups limit false rest
          refine ⟨Nat.succ_le_succ hlength, ?_⟩
          rw [List.forall_mem_cons]
          exact ⟨lt_of_number? hnumber, hgroups⟩

theorem valid_of_address? {cs rest : List Char} {gs : List Nat} (h : address? cs = some (gs, rest)) :
    gs.length = 8 ∧ ∀ g ∈ gs, g < 65536 := by
  obtain ⟨hfront, hsmall⟩ := valid_of_groups 8 true cs
  rw [address?] at h
  simp only at h
  split at h
  · rename_i hlength
    cases h
    exact ⟨hlength, hsmall⟩
  · split at h
    · cases h
    · obtain ⟨cs₁, -, h⟩ := Option.bind_eq_some_iff.1 h
      obtain ⟨cs₂, -, h⟩ := Option.bind_eq_some_iff.1 h
      obtain ⟨hback, hsmall'⟩ := valid_of_groups (7 - (groups true 8 cs).1.length) true cs₂
      cases h
      refine ⟨?_, ?_⟩
      · simp only [List.length_append, List.length_replicate]
        omega
      · intro g hg
        rcases List.mem_append.1 hg with hg | hg
        · rcases List.mem_append.1 hg with hg | hg
          · exact hsmall g hg
          · rw [List.eq_of_mem_replicate hg]
            decide
        · exact hsmall' g hg

theorem port?_lt {cs rest : List Char} {port : Nat} (h : port? cs = some (port, rest)) : port < 65536 := by
  rw [port?] at h
  obtain ⟨cs', -, h⟩ := Option.bind_eq_some_iff.1 h
  exact lt_of_number? h

theorem scope_lt (cs : List Char) : (scope cs).1 < UInt32.size := by
  unfold scope
  split
  · rename_i n rest h
    obtain ⟨cs', -, h⟩ := Option.bind_eq_some_iff.1 h
    exact lt_of_number? h
  · exact Nat.two_pow_pos 32

theorem valid_of_parse4? {cs rest : List Char} {a : SocketAddress} (h : parse4? cs = some (a, rest)) : a.Valid := by
  rw [parse4?] at h
  obtain ⟨⟨octets, cs₁⟩, hoctets, h⟩ := Option.bind_eq_some_iff.1 h
  obtain ⟨⟨port, cs₂⟩, hport, h⟩ := Option.bind_eq_some_iff.1 h
  cases h
  exact ⟨(valid_of_octets? hoctets).1, (valid_of_octets? hoctets).2, port?_lt hport⟩

theorem valid_of_parse6? {cs rest : List Char} {a : SocketAddress} (h : parse6? cs = some (a, rest)) : a.Valid := by
  rw [parse6?] at h
  obtain ⟨cs₁, -, h⟩ := Option.bind_eq_some_iff.1 h
  obtain ⟨⟨gs, cs₂⟩, hgroups, h⟩ := Option.bind_eq_some_iff.1 h
  obtain ⟨cs₃, -, h⟩ := Option.bind_eq_some_iff.1 h
  obtain ⟨⟨port, cs₄⟩, hport, h⟩ := Option.bind_eq_some_iff.1 h
  cases h
  exact ⟨(valid_of_address? hgroups).1, (valid_of_address? hgroups).2, scope_lt cs₂, port?_lt hport⟩

/-- What reads as an address is one. -/
theorem valid_of_parse? {s : String} {a : SocketAddress} (h : parse? s = some a) : a.Valid := by
  rw [parse?] at h
  split at h
  · rename_i b hparse
    cases h
    cases hfour : parse4? s.toList with
    | some found =>
      rw [hfour] at hparse
      cases hparse
      exact valid_of_parse4? hfour
    | none =>
      rw [hfour] at hparse
      exact valid_of_parse6? hparse
  · cases h

end YangSubscriptions.SocketAddress
