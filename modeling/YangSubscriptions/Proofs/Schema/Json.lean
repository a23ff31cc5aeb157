import YangSubscriptions.Schema.Json
import YangSubscriptions.Proofs.Json.Record

/-!
# Schemas are read back as they are written

A schema node leaves out its module, its keys and its children where there are none, at every depth; what is left out is
read as none. The induction is on the nodes for reading back, and on the value for the depth at which they were read.
-/

namespace YangSubscriptions

open Json (Mismatch Decoder Fields Rows Shallow)

namespace Module

theorem decode_toJson : ∀ m : Module, decode m.toJson = .ok m
  | ⟨name, ns, none⟩ => Json.record_object (by simp [Decoder.string])
  | ⟨name, ns, some revision⟩ => Json.record_object (by simp [Decoder.string, Decoder.option, Except.map])

theorem shallow : Shallow decode toJson := by
  intro j m depth h hj
  obtain ⟨rows, -, hrows⟩ := Json.exists_rows h
  obtain ⟨name, ns, revision⟩ := m
  cases revision <;> simp [toJson, Json.Within, Json.MembersWithin, (hrows depth hj).1]

theorem legible_toJson : ∀ m : Module, m.toJson.Legible
  | ⟨name, ns, none⟩ => by simp [toJson, Json.Legible, Json.MembersLegible]
  | ⟨name, ns, some revision⟩ => by simp [toJson, Json.Legible, Json.MembersLegible]

end Module

namespace SchemaNode

theorem kindDecoder_name (kind : SchemaKind) : kindDecoder (.string kind.name) = .ok kind := by
  cases kind <;> rfl

/-- The members of a node in turn: what is left out stays as in an empty draft. -/
theorem decodeMembers_written (module : Option String) (name : String) (kind : SchemaKind) (keys : List String)
    {children : List SchemaNode} {items : List Json} (hitems : decodeList items = .ok children) :
    decodeMembers .empty (Json.optionalMember "module" (module.map .string) ++
      [("name", .string name), ("kind", .string kind.name)] ++
      (if keys.isEmpty then [] else [("keys", .array (keys.map .string))]) ++
      (if children.isEmpty then [] else [("children", .array items)])) =
        .ok ⟨module, some name, some kind, keys, children⟩ := by
  have hkeys := Decoder.list_map (fun s : String => (rfl : Decoder.string (.string s) = .ok s)) keys
  cases keys with
  | nil =>
    cases module <;> cases children <;> simp [decodeMembers, decodeField, Draft.empty, kindDecoder_name, Decoder.string,
      Decoder.option, hitems, bind, Except.bind, Except.map]
  | cons key keys =>
    rw [List.map_cons] at hkeys
    cases module <;> cases children <;> simp [decodeMembers, decodeField, Draft.empty, kindDecoder_name, Decoder.string,
      Decoder.option, hitems, hkeys, bind, Except.bind, Except.map]

mutual

theorem decode_toJson : ∀ n : SchemaNode, decode n.toJson = .ok n
  | mk module name kind keys children => by
    have hchildren := decodeMembers_written module name kind keys (decodeList_toJson children)
    rw [toJson, decode, hchildren]
    rfl

theorem decodeList_toJson : ∀ ns : List SchemaNode, decodeList (listToJson ns) = .ok ns
  | [] => rfl
  | n :: ns => by
    rw [listToJson, decodeList, decode_toJson n, decodeList_toJson ns]
    rfl

end

/-! ## Depth -/

/-- What is read of a node from fields at that depth is written no deeper. -/
structure Draft.Within (depth : Nat) (d : Draft) : Prop where
  keys : d.keys ≠ [] → 1 < depth
  children : d.children ≠ [] → 1 < depth
  items : Json.ItemsWithin (depth - 1) (listToJson d.children)

theorem Draft.within_empty (depth : Nat) : Draft.empty.Within depth where
  keys h := absurd rfl h
  children h := absurd rfl h
  items := trivial

theorem within_strings {depth : Nat} (hdepth : 1 < depth) (ss : List String) :
    (Json.array (ss.map .string)).Within depth := by
  refine ⟨hdepth, Json.itemsWithin_iff.2 fun v hv => ?_⟩
  obtain ⟨s, -, rfl⟩ := List.mem_map.1 hv
  trivial

theorem Draft.Within.finish {depth : Nat} {d : Draft} {missing : String → Nat → Mismatch} {n : SchemaNode}
    (hd : d.Within depth) (hdepth : 0 < depth) (h : d.finish missing = .ok n) : n.toJson.Within (depth + 1) := by
  obtain ⟨module, name, kind, keys, children⟩ := d
  unfold Draft.finish at h
  split at h
  · cases h
  · cases h
  · cases h
    have hkeys : keys ≠ [] → (Json.array (keys.map .string)).Within depth := fun h => within_strings (hd.keys h) keys
    have hchildren : children ≠ [] → (Json.array (listToJson children)).Within depth := fun h =>
      ⟨hd.children h, hd.items⟩
    rw [toJson]
    refine ⟨by omega, ?_⟩
    rw [Nat.add_sub_cancel]
    cases module <;> cases keys <;> cases children <;> simp_all [Json.MembersWithin, Json.Within]

theorem strings_of_list {v : Json} {ss : List String} {depth : Nat} (h : Decoder.list .string v = .ok ss)
    (hv : v.Within depth) : 1 < depth := by
  unfold Decoder.list at h
  split at h
  · exact hv.1
  · cases h

/-- A field that is read, given how children are. -/
theorem Draft.Within.field {name : String} {v : Json} {d d' : Draft} {depth : Nat} (hd : d.Within depth)
    (h : decodeField d name v = .ok d') (hv : v.Within depth)
    (hchildren : ∀ items ns, v = .array items → decodeList items = .ok ns → Json.ItemsWithin (depth - 1) (listToJson ns)) :
    d'.Within depth := by
  unfold decodeField at h
  split at h
  · obtain ⟨module, -, h⟩ := exists_ok_of_bind h
    cases h
    exact ⟨hd.keys, hd.children, hd.items⟩
  split at h
  · obtain ⟨name, -, h⟩ := exists_ok_of_bind h
    cases h
    exact ⟨hd.keys, hd.children, hd.items⟩
  split at h
  · obtain ⟨kind, -, h⟩ := exists_ok_of_bind h
    cases h
    exact ⟨hd.keys, hd.children, hd.items⟩
  split at h
  · obtain ⟨keys, hkeys, h⟩ := exists_ok_of_bind h
    cases h
    exact ⟨fun _ => strings_of_list hkeys hv, hd.children, hd.items⟩
  split at h
  · split at h
    · rename_i items
      obtain ⟨children, hlist, h⟩ := exists_ok_of_bind h
      cases h
      exact ⟨hd.keys, fun _ => hv.1, hchildren items children rfl hlist⟩
    · cases h
  · cases h
    exact hd

mutual

/-- A node is written no deeper than it was read. -/
theorem within_toJson : ∀ (j : Json) {n : SchemaNode} {depth : Nat}, decode j = .ok n → j.Within depth →
    n.toJson.Within depth
  | .object members, n, depth, h, hj => by
    rw [decode] at h
    obtain ⟨d, hmembers, h⟩ := exists_ok_of_bind h
    have hd := within_decodeMembers members hmembers hj.2 (Draft.within_empty _)
    have hfinish := hd.finish (by have := hj.1; omega) h
    rwa [Nat.sub_add_cancel (by have := hj.1; omega)] at hfinish
  | .array items, n, depth, h, hj => by
    rw [decode] at h
    obtain ⟨d, hitems, h⟩ := exists_ok_of_bind h
    obtain ⟨n', hn, h⟩ := exists_ok_of_bind h
    have hd := within_decodeItems fieldNames items hitems hj.2 (Draft.within_empty _)
    have hfinish := hd.finish (by have := hj.1; omega) hn
    rw [Nat.sub_add_cancel (by have := hj.1; omega)] at hfinish
    split at h
    · cases h
    · cases h
      exact hfinish
  | .null, _, _, h, _ | .bool _, _, _, h, _ | .number _, _, _, h, _ | .string _, _, _, h, _ => by simp [decode] at h

theorem within_decodeMembers : ∀ (ms : List (String × Json)) {d d' : Draft} {depth : Nat},
    decodeMembers d ms = .ok d' → Json.MembersWithin depth ms → d.Within depth → d'.Within depth
  | [], _, _, _, h, _, hd => by
    cases h
    exact hd
  | (name, v) :: ms, d, d', depth, h, hms, hd => by
    rw [decodeMembers] at h
    obtain ⟨d₁, hfield, h⟩ := exists_ok_of_bind h
    exact within_decodeMembers ms h hms.2 (hd.field hfield hms.1 fun _ _ hv hlist => within_children v hv hlist hms.1)

theorem within_decodeItems : ∀ (names : List String) (vs : List Json) {d d' : Draft} {depth : Nat},
    decodeItems d names vs = .ok d' → Json.ItemsWithin depth vs → d.Within depth → d'.Within depth
  | name :: names, v :: vs, d, d', depth, h, hvs, hd => by
    rw [decodeItems] at h
    obtain ⟨d₁, hfield, h⟩ := exists_ok_of_bind h
    exact within_decodeItems names vs h hvs.2 (hd.field hfield hvs.1 fun _ _ hv hlist => within_children v hv hlist hvs.1)
  | [], _, _, _, _, h, _, hd => by
    simp only [decodeItems, Except.ok.injEq] at h
    exact h ▸ hd
  | _ :: _, [], _, _, _, h, _, hd => by
    simp only [decodeItems, Except.ok.injEq] at h
    exact h ▸ hd

theorem within_children : ∀ (v : Json) {items : List Json} {ns : List SchemaNode} {depth : Nat}, v = .array items →
    decodeList items = .ok ns → v.Within depth → Json.ItemsWithin (depth - 1) (listToJson ns)
  | .array items, _, ns, depth, hitems, h, hv => by
    cases hitems
    exact within_decodeList items h hv.2
  | .null, _, _, _, h, _, _ | .bool _, _, _, _, h, _, _ | .number _, _, _, _, h, _, _ | .string _, _, _, _, h, _, _
  | .object _, _, _, _, h, _, _ => by cases h

theorem within_decodeList : ∀ (vs : List Json) {ns : List SchemaNode} {depth : Nat}, decodeList vs = .ok ns →
    Json.ItemsWithin depth vs → Json.ItemsWithin depth (listToJson ns)
  | [], _, _, h, _ => by
    cases h
    trivial
  | v :: vs, ns, depth, h, hvs => by
    rw [decodeList] at h
    obtain ⟨n, hn, h⟩ := exists_ok_of_bind h
    obtain ⟨ns', hns, h⟩ := exists_ok_of_bind h
    cases h
    exact ⟨within_toJson v hn hvs.1, within_decodeList vs hns hvs.2⟩

end

/-! ## Legibility -/

mutual

theorem legible_toJson : ∀ n : SchemaNode, n.toJson.Legible
  | mk module name kind keys children => by
    have hchildren := legible_listToJson children
    have hkeys := @Json.legible_list _ Json.string (fun _ => trivial) keys
    cases module <;> cases keys <;> cases children <;> simp_all [toJson, Json.Legible, Json.MembersLegible]

theorem legible_listToJson : ∀ ns : List SchemaNode, Json.ItemsLegible (listToJson ns)
  | [] => trivial
  | n :: ns => ⟨legible_toJson n, legible_listToJson ns⟩

end

theorem listToJson_eq_map : ∀ ns : List SchemaNode, listToJson ns = ns.map toJson
  | [] => rfl
  | n :: ns => by rw [listToJson, List.map_cons, listToJson_eq_map ns]

theorem shallow : Shallow decode toJson := fun j _ _ => within_toJson j

end SchemaNode

namespace Schema

theorem decode_toJson (s : Schema) : decode s.toJson = .ok s := by
  have hmodules := Decoder.list_map Module.decode_toJson s.modules
  have hnotifications := Decoder.list_map SchemaNode.decode_toJson s.notifications
  rw [← SchemaNode.listToJson_eq_map] at hnotifications
  exact Json.record_object (by simp [hmodules, hnotifications])

/-- A schema is written no deeper than it was read, or than an object with empty lists. -/
theorem within_toJson {j : Json} {s : Schema} {depth : Nat} (h : decode j = .ok s) (hj : j.Within depth)
    (hdepth : 2 < depth) : s.toJson.Within depth := by
  obtain ⟨rows, hread, hrows⟩ := Json.exists_rows h
  obtain ⟨hdeep, hvalues⟩ := hrows depth hj
  obtain ⟨_, notifications, hfirst, hnotifications, rfl⟩ := Fields.also_eq_ok_iff.1 hread
  obtain ⟨_, modules, hmk, hmodules, rfl⟩ := Fields.also_eq_ok_iff.1 hfirst
  cases hmk
  have hempty : (Json.array []).Within (depth - 1) := ⟨by omega, trivial⟩
  have hmodules := Module.shallow.list.defaulted hempty hvalues hmodules
  have hnotifications := SchemaNode.shallow.list.defaulted hempty hvalues hnotifications
  rw [← SchemaNode.listToJson_eq_map] at hnotifications
  exact ⟨hdeep, hmodules, hnotifications, trivial⟩

theorem legible_toJson (s : Schema) : s.toJson.Legible :=
  ⟨by simp, Json.legible_list Module.legible_toJson s.modules, SchemaNode.legible_listToJson s.notifications, trivial⟩

end Schema

end YangSubscriptions
