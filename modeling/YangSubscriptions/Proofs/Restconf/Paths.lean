import YangSubscriptions.Restconf.Server
import Mathlib.Data.List.TakeWhile

/-!
# Paths of filters

A name is put into a path by percent-encoding, and every name can be (`percentDecode?_percentEncoded`). The path is
decoded before it is cut at its slashes: what is found in it is always a segment of a path (`isSegment_of_ofPath`), and it
is the name that was put into it if that is one itself (`ofPath_filterPath`).
-/

namespace YangSubscriptions

/-! ## Percent-encoding -/

/-- Letters, digits and four signs stand for themselves. -/
def isUnreserved (c : Char) : Bool := c.isAlphanum || c = '-' || c = '.' || c = '_' || c = '~'

def hexChar (n : Nat) : Char := (Nat.digitChar n).toUpper

def percentChars (b : UInt8) : List Char :=
  if isUnreserved (.ofNat b.toNat) then [.ofNat b.toNat] else ['%', hexChar (b.toNat / 16), hexChar (b.toNat % 16)]

/-- The text with its characters given by their bytes, but for the unreserved ones. -/
def percentEncoded (s : String) : String := String.ofList (s.toUTF8.toList.flatMap percentChars)

theorem toList_loop_eq (bs : ByteArray) (i : Nat) (r : List UInt8) :
    ByteArray.toList.loop bs i r = r.reverse ++ bs.data.toList.drop i := by
  fun_induction ByteArray.toList.loop bs i r with
  | case1 i r h ih =>
    have hlength : i < bs.data.toList.length := by simpa using h
    rw [ih, List.drop_eq_getElem_cons hlength]
    simp [ByteArray.get!, h]
  | case2 i r h =>
    rw [List.drop_eq_nil_of_le (by simpa using Nat.le_of_not_lt h), List.append_nil]

theorem toList_eq_data (bs : ByteArray) : bs.toList = bs.data.toList := by
  rw [ByteArray.toList, toList_loop_eq]
  simp

/-- A text of ASCII characters has one byte for each. -/
theorem toUTF8_ascii {cs : List Char} (h : ∀ c ∈ cs, c.toNat < 128) :
    (String.ofList cs).toUTF8.toList = cs.map fun c => UInt8.ofNat c.toNat := by
  have hbytes : cs.flatMap String.utf8EncodeChar = cs.map fun c => UInt8.ofNat c.toNat := by
    induction cs with
    | nil => rfl
    | cons c cs ih =>
      have hc : String.utf8EncodeChar c = [UInt8.ofNat c.toNat] := if_pos (Nat.le_of_lt_succ (h c List.mem_cons_self))
      rw [List.flatMap_cons, hc, ih fun d hd => h d (List.mem_cons_of_mem c hd)]
      rfl
  rw [toList_eq_data, String.toUTF8_eq_toByteArray, String.toByteArray_ofList, List.utf8Encode,
    List.toList_data_toByteArray, hbytes]

theorem percentDecoded_cons {b : UInt8} (h : b ≠ 37) (bs : List UInt8) :
    percentDecoded (b :: bs) = b :: percentDecoded bs := by
  rw [percentDecoded]
  rintro a b rest rfl
  exact absurd rfl h

theorem percentDecoded_escape {a b x y : UInt8} (ha : hexDigit? a = some x) (hb : hexDigit? b = some y)
    (bs : List UInt8) : percentDecoded (37 :: a :: b :: bs) = (16 * x + y) :: percentDecoded bs := by
  rw [percentDecoded, ha, hb]

theorem hexDigit?_hexChar : ∀ n < 16, (hexChar n).toNat < 128 ∧ hexDigit? (.ofNat (hexChar n).toNat) = some (.ofNat n) := by
  decide

theorem lt_of_isUnreserved {c : Char} (h : isUnreserved c = true) : c.toNat < 128 := by
  have hrange : ∀ last : Char, c.val ≤ last.val → last.toNat < 128 → c.toNat < 128 := fun last hle hlast =>
    Nat.lt_of_le_of_lt (UInt32.le_iff_toNat_le.1 hle) hlast
  simp only [isUnreserved, Bool.or_eq_true, decide_eq_true_eq] at h
  rcases h with (((h | rfl) | rfl) | rfl) | rfl
  · rcases Bool.or_eq_true_iff.1 h with h | h
    · rcases Bool.or_eq_true_iff.1 h with h | h
      · exact hrange 'Z' (of_decide_eq_true h).2 (by decide)
      · exact hrange 'z' (of_decide_eq_true (Bool.and_eq_true_iff.1 h).2) (by decide)
    · exact hrange '9' (of_decide_eq_true (Bool.and_eq_true_iff.1 h).2) (by decide)
  all_goals decide

/-- An encoded byte is decoded to itself. -/
theorem percentDecoded_percentChars (b : UInt8) (bs : List UInt8) :
    percentDecoded ((percentChars b).map (fun c => UInt8.ofNat c.toNat) ++ bs) = b :: percentDecoded bs := by
  have hb := b.toNat_lt
  unfold percentChars
  split
  · rename_i h
    have hbyte : UInt8.ofNat (Char.ofNat b.toNat).toNat = b := by
      rw [Char.ofNat, dif_pos (.inl (by omega))]
      exact UInt8.ofNat_toNat
    have hne : b ≠ 37 := by
      rintro rfl
      cases h
    simpa [hbyte] using percentDecoded_cons hne bs
  · have hhigh := (hexDigit?_hexChar (b.toNat / 16) (by omega)).2
    have hlow := (hexDigit?_hexChar (b.toNat % 16) (by omega)).2
    have hbyte : 16 * UInt8.ofNat (b.toNat / 16) + UInt8.ofNat (b.toNat % 16) = b := by
      have hsixteen : UInt8.toNat 16 = 16 := rfl
      apply UInt8.toNat_inj.1
      simp only [UInt8.toNat_add, UInt8.toNat_mul, UInt8.toNat_ofNat', hsixteen]
      omega
    have hescape := percentDecoded_escape hhigh hlow bs
    rw [hbyte] at hescape
    exact hescape

/-- Decoding undoes percent-encoding, byte by byte. -/
theorem percentDecoded_flatMap (bs : List UInt8) :
    percentDecoded ((bs.flatMap percentChars).map fun c => UInt8.ofNat c.toNat) = bs := by
  induction bs with
  | nil => rfl
  | cons b bs ih => rw [List.flatMap_cons, List.map_append, percentDecoded_percentChars, ih]

/-- No percent sign, nothing to decode. -/
theorem percentDecoded_append {as : List UInt8} (h : 37 ∉ as) (bs : List UInt8) :
    percentDecoded (as ++ bs) = as ++ percentDecoded bs := by
  induction as with
  | nil => rfl
  | cons a as ih =>
    rw [List.mem_cons, not_or] at h
    rw [List.cons_append, percentDecoded_cons (Ne.symm h.1), ih h.2, List.cons_append]

/-- The characters of encoded text are ASCII, and none of them ends a path. -/
theorem mem_percentChars {b : UInt8} {c : Char} (h : c ∈ percentChars b) : c.toNat < 128 ∧ c ≠ '?' ∧ c ≠ '#' := by
  have hb := b.toNat_lt
  have hhex : ∀ n < 16, hexChar n ≠ '?' ∧ hexChar n ≠ '#' := by decide
  unfold percentChars at h
  split at h
  · rename_i hunreserved
    obtain rfl := List.mem_singleton.1 h
    refine ⟨lt_of_isUnreserved hunreserved, ?_, ?_⟩ <;>
    · intro heq
      rw [heq] at hunreserved
      cases hunreserved
  · simp only [List.mem_cons, List.not_mem_nil, or_false] at h
    rcases h with rfl | rfl | rfl
    · decide
    · exact ⟨(hexDigit?_hexChar _ (by omega)).1, hhex _ (by omega)⟩
    · exact ⟨(hexDigit?_hexChar _ (by omega)).1, hhex _ (by omega)⟩

theorem toList_toUTF8_append (s t : String) : (s ++ t).toUTF8.toList = s.toUTF8.toList ++ t.toUTF8.toList := by
  simp only [toList_eq_data, String.toUTF8_eq_toByteArray, String.toByteArray_append, ByteArray.data_append,
    Array.toList_append]

theorem toList_toUTF8_percentEncoded (s : String) :
    (percentEncoded s).toUTF8.toList = (s.toUTF8.toList.flatMap percentChars).map fun c => UInt8.ofNat c.toNat := by
  refine toUTF8_ascii fun c hc => ?_
  obtain ⟨b, -, hc⟩ := List.mem_flatMap.1 hc
  exact (mem_percentChars hc).1

/-- The decoded bytes are read as the text they spell. -/
theorem percentDecode?_of_bytes {s t : String} (h : percentDecoded s.toUTF8.toList = t.toUTF8.toList) :
    percentDecode? s = some t := by
  rw [percentDecode?, h, toList_eq_data, Array.toArray_toList, String.fromUTF8?]
  exact dif_pos t.isValidUTF8

/-- What was encoded behind a text without percent signs is decoded again. -/
theorem percentDecode?_percentEncoded {beginning : String} (h : 37 ∉ beginning.toUTF8.toList) (s : String) :
    percentDecode? (beginning ++ percentEncoded s) = some (beginning ++ s) := by
  apply percentDecode?_of_bytes
  rw [toList_toUTF8_append, toList_toUTF8_append, percentDecoded_append h, toList_toUTF8_percentEncoded,
    percentDecoded_flatMap]

/-! ## Segments -/

namespace Text

/-- Can it stand between two slashes of a path? -/
def IsSegment (s : String) : Prop := s ≠ "" ∧ '/' ∉ s.toList

instance (s : String) : Decidable (IsSegment s) := inferInstanceAs (Decidable (_ ∧ _))

theorem after?_append (a b : String) : after? a (a ++ b) = some b := by
  rw [after?, String.toList_append, if_pos (by simp [List.isPrefixOf_iff_prefix]), ← String.length_toList,
    List.drop_left, String.ofList_toList]

theorem after?_eq_some {a s b : String} (h : after? a s = some b) : s = a ++ b := by
  unfold after? at h
  split at h
  · rename_i hprefix
    obtain ⟨r, hr⟩ := List.isPrefixOf_iff_prefix.1 hprefix
    cases h
    apply String.toList_injective
    rw [String.toList_append, String.toList_ofList, ← hr, ← String.length_toList, List.drop_left]
  · cases h

variable {c : Char}

theorem pieces_of_not_mem : ∀ {cs : List Char}, c ∉ cs → pieces c cs = [cs]
  | [], _ => rfl
  | d :: r, h => by
    rw [List.mem_cons, not_or] at h
    rw [pieces, if_neg (Ne.symm h.1), pieces_of_not_mem h.2]

theorem pieces_append : ∀ {a : List Char}, c ∉ a → ∀ b, pieces c (a ++ c :: b) = a :: pieces c b
  | [], _, b => if_pos rfl
  | d :: a, h, b => by
    rw [List.mem_cons, not_or] at h
    rw [List.cons_append, pieces, if_neg (Ne.symm h.1), pieces_append h.2]

theorem not_mem_of_mem_pieces : ∀ {cs p : List Char}, p ∈ pieces c cs → c ∉ p
  | [], p, h => by
    obtain rfl := List.mem_singleton.1 h
    exact List.not_mem_nil
  | d :: r, p, h => by
    have hrest := fun q => @not_mem_of_mem_pieces r q
    rw [pieces] at h
    split at h
    · rcases List.mem_cons.1 h with rfl | h
      · exact List.not_mem_nil
      · exact hrest p h
    · rename_i hd
      have hcons : ∀ q, c ∉ q → c ∉ d :: q := fun q hq => by simp [Ne.symm hd, hq]
      split at h
      · obtain rfl := List.mem_singleton.1 h
        exact hcons [] List.not_mem_nil
      · rename_i q qs heq
        rw [heq] at hrest
        rcases List.mem_cons.1 h with rfl | h
        · exact hcons q (hrest q List.mem_cons_self)
        · exact hrest p (List.mem_cons_of_mem q h)

theorem dropWhile_slash {cs : List Char} (h : '/' ∉ cs.head?) : cs.dropWhile (· = '/') = cs := by
  cases cs with
  | nil => rfl
  | cons c r =>
    have hc : c ≠ '/' := by simpa using h
    rw [List.dropWhile_cons, if_neg (by simpa using hc)]

/-- No slash at either end, no slash to trim. -/
theorem trimSlashes_eq_self {s : String} (hhead : '/' ∉ s.toList.head?) (hlast : '/' ∉ s.toList.getLast?) :
    trimSlashes s = s := by
  rw [trimSlashes, dropWhile_slash hhead, dropWhile_slash (by rwa [List.head?_reverse]), List.reverse_reverse,
    String.ofList_toList]

theorem trimSlashes_slash {s : String} (hne : s ≠ "") (hhead : '/' ∉ s.toList.head?) :
    trimSlashes (s ++ "/") = trimSlashes s := by
  have hlonger : '/' ∉ (s.toList ++ ['/']).head? := by
    rwa [List.head?_append, Option.or_of_isSome (by simpa using hne)]
  have htext : (s ++ "/").toList = s.toList ++ ['/'] := by simp
  rw [trimSlashes, trimSlashes, htext, dropWhile_slash hlonger, dropWhile_slash hhead, List.reverse_append]
  rfl

end Text

/-! ## Resources of filters -/

/-- Where the filter of a name is. -/
def filterPath (name : String) : String := subscribedNotifications ++ ":filters/stream-filter=" ++ name

namespace DataResource

theorem head?_filterPath (name : String) : '/' ∉ (filterPath name).toList.head? := by
  simp [filterPath, subscribedNotifications]

theorem ofPath_of_trimSlashes {path name : String} (h : Text.IsSegment name)
    (htrim : Text.trimSlashes path = filterPath name) : ofPath path = .ok (.filter name) := by
  obtain ⟨relative, hrelative⟩ : ∃ relative, relative = "filters" ++ "/" ++ ("stream-filter=" ++ name) := ⟨_, rfl⟩
  have hpath : filterPath name = subscribedNotifications ++ ":" ++ relative :=
    String.toList_injective (by simp [filterPath, hrelative])
  have hpieces : (Text.pieces '/' relative.toList).map String.ofList = ["filters", "stream-filter=" ++ name] := by
    have hentry : '/' ∉ ("stream-filter=" ++ name).toList := by simpa using h.2
    have hcut := Text.pieces_append (c := '/') (a := "filters".toList) (by decide) ("stream-filter=" ++ name).toList
    rw [Text.pieces_of_not_mem hentry] at hcut
    rw [hrelative, String.toList_append, String.toList_append, List.append_assoc]
    refine (congrArg _ hcut).trans ?_
    rw [List.map_cons, List.map_singleton, String.ofList_toList, String.ofList_toList]
  have hafter : Text.after? (subscribedNotifications ++ ":") (filterPath name) = some relative :=
    hpath ▸ Text.after?_append _ relative
  unfold ofPath
  simp [htrim, hafter, hpieces, Text.after?_append, h.1]

theorem trimSlashes_filterPath {name : String} (h : Text.IsSegment name) :
    Text.trimSlashes (filterPath name) = filterPath name := by
  refine Text.trimSlashes_eq_self (head?_filterPath name) fun hlast => ?_
  have hname : name.toList ≠ [] := by simpa using h.1
  rw [filterPath, String.toList_append, List.getLast?_append, List.getLast?_eq_some_getLast hname] at hlast
  exact h.2 (List.mem_of_mem_getLast? (by rwa [List.getLast?_eq_some_getLast hname]))

theorem ofPath_filterPath {name : String} (h : Text.IsSegment name) : ofPath (filterPath name) = .ok (.filter name) :=
  ofPath_of_trimSlashes h (trimSlashes_filterPath h)

/-- A slash behind a name is lost, and the path is that of another filter. -/
theorem ofPath_filterPath_slash {name : String} (h : Text.IsSegment name) :
    ofPath (filterPath (name ++ "/")) = .ok (.filter name) := by
  have hpath : filterPath (name ++ "/") = filterPath name ++ "/" := by rw [filterPath, ← String.append_assoc, filterPath]
  have hne : filterPath name ≠ "" := by simp [filterPath, subscribedNotifications]
  refine ofPath_of_trimSlashes h ?_
  rw [hpath, Text.trimSlashes_slash hne (head?_filterPath name), trimSlashes_filterPath h]

/-- Whatever the path, a filter that is found in it has the name of a segment. -/
theorem isSegment_of_ofPath {path name : String} (h : ofPath path = .ok (.filter name)) : Text.IsSegment name := by
  unfold ofPath at h
  simp only at h
  split at h
  · rename_i found heq
    cases h
    obtain ⟨relative, -, heq⟩ := Option.bind_eq_some_iff.1 heq
    have hsegments : ∀ p ∈ (Text.pieces '/' relative.toList).map String.ofList, '/' ∉ p.toList := by
      intro p hp
      obtain ⟨q, hq, rfl⟩ := List.mem_map.1 hp
      rw [String.toList_ofList]
      exact Text.not_mem_of_mem_pieces hq
    split at heq
    · cases heq
    · obtain ⟨id, -, heq⟩ := Option.bind_eq_some_iff.1 heq
      obtain ⟨n, -, heq⟩ := Option.map_eq_some_iff.1 heq
      cases heq
    · rename_i entry hpieces
      obtain ⟨name', hname, heq⟩ := Option.bind_eq_some_iff.1 heq
      split at heq
      · cases heq
      · rename_i hne
        cases heq
        have hentry := hsegments entry (by simp [hpieces])
        rw [Text.after?_eq_some hname, String.toList_append, List.mem_append, not_or] at hentry
        exact ⟨hne, hentry.2⟩
    · cases heq
  · cases h

end DataResource

/-! ## Targets of requests -/

/-- Does nothing in it end a path? -/
def IsPlain (s : String) : Prop := ∀ c ∈ s.toList, c ≠ '?' ∧ c ≠ '#'

-- named, since characters are a finite type and could all be tried
instance (s : String) : Decidable (IsPlain s) := List.decidableBAll (fun c => c ≠ '?' ∧ c ≠ '#') s.toList

theorem IsPlain.append {s t : String} (hs : IsPlain s) (ht : IsPlain t) : IsPlain (s ++ t) := by
  intro c hc
  rw [String.toList_append, List.mem_append] at hc
  exact hc.elim (hs c) (ht c)

theorem isPlain_percentEncoded (s : String) : IsPlain (percentEncoded s) := by
  intro c hc
  rw [percentEncoded, String.toList_ofList] at hc
  obtain ⟨b, -, hc⟩ := List.mem_flatMap.1 hc
  exact (mem_percentChars hc).2

theorem IsPlain.pathOnly_eq {path : String} (h : IsPlain path) : Server.pathOnly path = path := by
  have hall : ∀ c ∈ path.toList, (c ≠ '?' && c ≠ '#') = true := fun c hc => by simpa using h c hc
  rw [Server.pathOnly, List.takeWhile_eq_self_iff.2 hall, String.ofList_toList]

/-- A path below the root. -/
def below (root relative : String) : String := "/" ++ root ++ "/" ++ relative

theorem IsPlain.below {root relative : String} (hroot : IsPlain root) (hrelative : IsPlain relative) :
    IsPlain (below root relative) := by
  have hslash : IsPlain "/" := by decide
  exact ((hslash.append hroot).append hslash).append hrelative

theorem after?_below (root relative : String) : Text.after? s!"/{root}/" (below root relative) = some relative :=
  Text.after?_append _ _

theorem Route.ofPath?_data {root raw : String} (h : raw ≠ "") :
    ofPath? root (below root ("data/" ++ raw)) = some (.data raw) := by
  have hoperation : Text.after? "operations/" ("data/" ++ raw) = none := by simp [Text.after?]
  have hstream : Text.after? "streams/" ("data/" ++ raw) = none := by simp [Text.after?]
  unfold ofPath?
  rw [after?_below]
  simp [hoperation, hstream, Text.after?_append, h]

theorem Route.ofPath?_operation {root name : String} (h : Text.IsSegment name) :
    ofPath? root (below root ("operations/" ++ name)) = some (.operation name) := by
  have hsegment : segment? name = some name := if_neg (by simpa [Text.IsSegment, not_or] using h)
  unfold ofPath?
  rw [after?_below]
  simp [Text.after?_append, hsegment]

namespace HttpRequest

/-- Does the path lead there, with that text for the part that varies? -/
def Targets (r : HttpRequest) (s : Server) (there : String → Route) (text : String) : Prop :=
  ∃ raw, Route.ofPath? s.root (Server.pathOnly r.path) = some (there raw) ∧ percentDecode? raw = some text

variable {r : HttpRequest} {s : Server}

/-- The path to the filter of a name, as it is sent. -/
def filterTarget (root name : String) : String := below root ("data/" ++ (filterPath "" ++ percentEncoded name))

/-- Every name has a path to its filter. -/
theorem targets_filterTarget {name : String} (hroot : IsPlain s.root) (hpath : r.path = filterTarget s.root name) :
    r.Targets s .data (filterPath name) := by
  have hdata : IsPlain "data/" := by decide
  have hfilters : IsPlain (filterPath "") := by decide
  have hplain := hroot.below (hdata.append (hfilters.append (isPlain_percentEncoded name)))
  have hbytes : 37 ∉ (filterPath "").toUTF8.toList := by
    rw [toList_eq_data]
    decide
  refine ⟨filterPath "" ++ percentEncoded name, ?_, ?_⟩
  · rw [hpath, filterTarget, hplain.pathOnly_eq]
    exact Route.ofPath?_data (by simp [filterPath, subscribedNotifications])
  · rw [percentDecode?_percentEncoded hbytes]
    simp [filterPath]

/-- The path of an operation. -/
def operationTarget (root : String) (op : Operation) : String := below root ("operations/" ++ op.name)

theorem targets_operationTarget {op : Operation} (hroot : IsPlain s.root) (hpath : r.path = operationTarget s.root op) :
    r.Targets s .operation op.name := by
  have hname : Text.IsSegment op.name ∧ IsPlain op.name ∧ 37 ∉ op.name.toUTF8.toList := by
    rw [toList_eq_data]
    cases op <;> decide
  have hoperations : IsPlain "operations/" := by decide
  have hplain := hroot.below (hoperations.append hname.2.1)
  refine ⟨op.name, ?_, ?_⟩
  · rw [hpath, operationTarget, hplain.pathOnly_eq]
    exact Route.ofPath?_operation hname.1
  · apply percentDecode?_of_bytes
    simpa [percentDecoded] using percentDecoded_append hname.2.2 []

end HttpRequest

end YangSubscriptions
