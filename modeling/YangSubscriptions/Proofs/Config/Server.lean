import YangSubscriptions.Config.Server
import YangSubscriptions.Proofs.Config.SocketAddress
import YangSubscriptions.Proofs.Schema.Json

/-!
# Configurations are read back as they are written

Whatever a configuration was read from, with any of its parts left out, it is written so that the same configuration is
read from what was written, as a value and as a text (`configuration_reread`). As a value, nothing but the address can be
in the way, and an address that was parsed is not (`valid_of_decode`). As a text it must also not be nested deeper than a
reader goes: it is no deeper than what it was read from, or than the defaults (`within_toJson`).
-/

namespace YangSubscriptions

open Json (Decoder Fields Rows Shallow)

/-- The defaults are small numbers. -/
theorem Json.within_int {n depth : Nat} (h : n < 18446744073709551616) : (Json.int n).Within depth := by
  rw [int, Within]
  omega

namespace StreamConfig

theorem decode_toJson : ∀ c : StreamConfig, decode c.toJson = .ok c
  | ⟨name, none, size⟩ => Json.record_object (by simp [Decoder.string, Decoder.natural, Json.int])
  | ⟨name, some description, size⟩ =>
    Json.record_object (by simp [Decoder.string, Decoder.option, Decoder.natural, Json.int, Except.map])

theorem shallow : Shallow decode toJson := by
  intro j c depth h hj
  obtain ⟨rows, hread, hrows⟩ := Json.exists_rows h
  obtain ⟨hdepth, hvalues⟩ := hrows depth hj
  obtain ⟨_, size, hfirst, hsize, rfl⟩ := Fields.also_eq_ok_iff.1 hread
  obtain ⟨_, description, hsecond, -, rfl⟩ := Fields.also_eq_ok_iff.1 hfirst
  obtain ⟨_, name, hmk, -, rfl⟩ := Fields.also_eq_ok_iff.1 hsecond
  cases hmk
  have hsize := (Json.shallow_natural "usize").defaulted (Json.within_int (by decide)) hvalues hsize
  cases description with
  | none => exact ⟨hdepth, trivial, hsize, trivial⟩
  | some description => exact ⟨hdepth, trivial, trivial, hsize, trivial⟩

theorem legible_toJson : ∀ c : StreamConfig, c.toJson.Legible
  | ⟨name, none, size⟩ => by simp [toJson, Json.int, Json.Legible, Json.MembersLegible]
  | ⟨name, some description, size⟩ => by simp [toJson, Json.int, Json.Legible, Json.MembersLegible]

end StreamConfig

namespace RuntimeConfig

theorem decode_toJson : ∀ c : RuntimeConfig, decode c.toJson = .ok c
  | ⟨none⟩ => Json.record_object (by simp)
  | ⟨some threads⟩ => Json.record_object (by simp [Decoder.option, Decoder.natural, Json.int, Except.map])

theorem shallow : Shallow decode toJson := by
  intro j c depth h hj
  obtain ⟨rows, hread, hrows⟩ := Json.exists_rows h
  obtain ⟨hdepth, hvalues⟩ := hrows depth hj
  obtain ⟨_, threads, hmk, hthreads, rfl⟩ := Fields.also_eq_ok_iff.1 hread
  cases hmk
  cases threads with
  | none => exact ⟨hdepth, trivial⟩
  | some threads =>
    rcases Fields.nullable_eq_ok_iff.1 hthreads with ⟨-, -, hnone⟩ | ⟨v, hv, hthreads⟩
    · cases hnone
    · exact ⟨hdepth, Json.shallow_natural "usize" (Decoder.eq_ok_of_option hthreads) (hvalues _ v hv), trivial⟩

theorem legible_toJson : ∀ c : RuntimeConfig, c.toJson.Legible
  | ⟨none⟩ => by simp [toJson, Json.Legible, Json.MembersLegible]
  | ⟨some threads⟩ => by simp [toJson, Json.int, Json.Legible, Json.MembersLegible]

end RuntimeConfig

namespace LoggingConfig

theorem decode_toJson (c : LoggingConfig) : decode c.toJson = .ok c := Json.record_object (by simp [Decoder.string])

theorem shallow : Shallow decode toJson := by
  intro j c depth h hj
  obtain ⟨rows, -, hrows⟩ := Json.exists_rows h
  exact ⟨(hrows depth hj).1, trivial, trivial⟩

theorem legible_toJson (c : LoggingConfig) : c.toJson.Legible := by
  simp [toJson, Json.Legible, Json.MembersLegible]

end LoggingConfig

namespace TelemetryConfig

theorem decode_toJson (c : TelemetryConfig) : decode c.toJson = .ok c :=
  Json.record_object (by simp [Decoder.string, Decoder.natural, Json.int])

theorem shallow : Shallow decode toJson := by
  intro j c depth h hj
  obtain ⟨rows, hread, hrows⟩ := Json.exists_rows h
  obtain ⟨hdepth, hvalues⟩ := hrows depth hj
  obtain ⟨_, interval, hfirst, hinterval, rfl⟩ := Fields.also_eq_ok_iff.1 hread
  obtain ⟨_, timeout, hsecond, htimeout, rfl⟩ := Fields.also_eq_ok_iff.1 hfirst
  obtain ⟨_, url, hmk, -, rfl⟩ := Fields.also_eq_ok_iff.1 hsecond
  cases hmk
  have hnatural := Json.shallow_natural "u64"
  exact ⟨hdepth, trivial, hnatural.defaulted (Json.within_int (by decide)) hvalues htimeout,
    hnatural.defaulted (Json.within_int (by decide)) hvalues hinterval, trivial⟩

theorem legible_toJson (c : TelemetryConfig) : c.toJson.Legible := by
  simp [toJson, Json.int, Json.Legible, Json.MembersLegible]

end TelemetryConfig

namespace HttpConfig

theorem decode_address {a : SocketAddress} (h : a.Valid) : Decoder.socketAddress (.string a.render) = .ok a := by
  rw [Decoder.socketAddress, SocketAddress.parse?_render h]

theorem decode_toJson {c : HttpConfig} (h : c.address.Valid) : decode c.toJson = .ok c :=
  Json.record_object (by simp [decode_address h, Decoder.string])

theorem valid_standard : standard.address.Valid := by
  simp [standard, SocketAddress.loopback, SocketAddress.Valid]

/-- An address that was read is one that can be written. -/
theorem valid_of_decode {j : Json} {c : HttpConfig} (h : decode j = .ok c) : c.address.Valid := by
  obtain ⟨rows, hread, -⟩ := Json.exists_rows h
  obtain ⟨_, root, hfirst, -, rfl⟩ := Fields.also_eq_ok_iff.1 hread
  obtain ⟨_, address, hmk, haddress, rfl⟩ := Fields.also_eq_ok_iff.1 hfirst
  cases hmk
  rcases Fields.defaulted_eq_ok_iff.1 haddress with ⟨-, rfl⟩ | ⟨v, -, haddress⟩
  · exact valid_standard
  · unfold Decoder.socketAddress at haddress
    split at haddress
    · split at haddress
      · rename_i hparse
        cases haddress
        exact SocketAddress.valid_of_parse? hparse
      · cases haddress
    · cases haddress

theorem shallow : Shallow decode toJson := by
  intro j c depth h hj
  obtain ⟨rows, -, hrows⟩ := Json.exists_rows h
  exact ⟨(hrows depth hj).1, trivial, trivial, trivial⟩

theorem legible_toJson (c : HttpConfig) : c.toJson.Legible := by
  simp [toJson, Json.Legible, Json.MembersLegible]

end HttpConfig

namespace DispatcherConfig

theorem decode_toJson (c : DispatcherConfig) : decode c.toJson = .ok c :=
  Json.record_object (by simp [Decoder.natural, Json.int])

theorem shallow : Shallow decode toJson := by
  intro j c depth h hj
  obtain ⟨rows, hread, hrows⟩ := Json.exists_rows h
  obtain ⟨hdepth, hvalues⟩ := hrows depth hj
  obtain ⟨_, router, hfirst, hrouter, rfl⟩ := Fields.also_eq_ok_iff.1 hread
  obtain ⟨_, timeout, hsecond, htimeout, rfl⟩ := Fields.also_eq_ok_iff.1 hfirst
  obtain ⟨_, listener, hthird, hlistener, rfl⟩ := Fields.also_eq_ok_iff.1 hsecond
  obtain ⟨_, command, hmk, hcommand, rfl⟩ := Fields.also_eq_ok_iff.1 hthird
  cases hmk
  have hsize := Json.shallow_natural "usize"
  have htime := Json.shallow_natural "u64"
  exact ⟨hdepth, hsize.defaulted (Json.within_int (by decide)) hvalues hcommand,
    hsize.defaulted (Json.within_int (by decide)) hvalues hlistener,
    htime.defaulted (Json.within_int (by decide)) hvalues htimeout,
    hsize.defaulted (Json.within_int (by decide)) hvalues hrouter, trivial⟩

theorem legible_toJson (c : DispatcherConfig) : c.toJson.Legible := by
  simp [toJson, Json.int, Json.Legible, Json.MembersLegible]

end DispatcherConfig

namespace ServerConfig

/-- What each section of a configuration is read from. -/
structure ReadFrom (rows : Rows) (c : ServerConfig) : Prop where
  runtime : Fields.defaulted "runtime" RuntimeConfig.decode .standard rows = .ok c.runtime
  logging : Fields.defaulted "logging" LoggingConfig.decode .standard rows = .ok c.logging
  telemetry : Fields.defaulted "telemetry" (.option TelemetryConfig.decode) none rows = .ok c.telemetry
  http : Fields.defaulted "server" HttpConfig.decode .standard rows = .ok c.http
  dispatcher : Fields.defaulted "dispatcher" DispatcherConfig.decode .standard rows = .ok c.dispatcher
  streams : Fields.defaulted "streams" (.list StreamConfig.decode) [] rows = .ok c.streams
  schema : Fields.defaulted "schema" Schema.decode .empty rows = .ok c.schema

/-- A configuration is read section by section, from an object or an array. -/
theorem exists_readFrom {j : Json} {c : ServerConfig} (h : decode j = .ok c) :
    ∃ rows, ReadFrom rows c ∧ ∀ depth, j.Within depth →
      1 < depth ∧ ∀ name v, rows.value? name = some v → v.Within (depth - 1) := by
  obtain ⟨rows, hread, hrows⟩ := Json.exists_rows h
  obtain ⟨_, schema, hread₁, hschema, rfl⟩ := Fields.also_eq_ok_iff.1 hread
  obtain ⟨_, streams, hread₂, hstreams, rfl⟩ := Fields.also_eq_ok_iff.1 hread₁
  obtain ⟨_, dispatcher, hread₃, hdispatcher, rfl⟩ := Fields.also_eq_ok_iff.1 hread₂
  obtain ⟨_, http, hread₄, hhttp, rfl⟩ := Fields.also_eq_ok_iff.1 hread₃
  obtain ⟨_, telemetry, hread₅, htelemetry, rfl⟩ := Fields.also_eq_ok_iff.1 hread₄
  obtain ⟨_, logging, hread₆, hlogging, rfl⟩ := Fields.also_eq_ok_iff.1 hread₅
  obtain ⟨_, runtime, hmk, hruntime, rfl⟩ := Fields.also_eq_ok_iff.1 hread₆
  cases hmk
  exact ⟨rows, ⟨hruntime, hlogging, htelemetry, hhttp, hdispatcher, hstreams, hschema⟩, hrows⟩

/-- Any configuration with a valid address is read back. -/
theorem decode_toJson {c : ServerConfig} (h : c.http.address.Valid) : decode c.toJson = .ok c := by
  have htelemetry : ∀ t : TelemetryConfig, Decoder.option TelemetryConfig.decode t.toJson = .ok (some t) := fun t =>
    Decoder.option_of_ne_null (by simp [TelemetryConfig.toJson]) t.decode_toJson
  have hstreams := Decoder.list_map StreamConfig.decode_toJson c.streams
  refine Json.record_object ?_
  obtain ⟨runtime, logging, telemetry, http, dispatcher, streams, schema⟩ := c
  cases telemetry <;>
    simp_all [RuntimeConfig.decode_toJson, LoggingConfig.decode_toJson, HttpConfig.decode_toJson h,
      DispatcherConfig.decode_toJson, Schema.decode_toJson]

theorem valid_of_decode {j : Json} {c : ServerConfig} (h : decode j = .ok c) : c.http.address.Valid := by
  obtain ⟨rows, hread, -⟩ := exists_readFrom h
  rcases Fields.defaulted_eq_ok_iff.1 hread.http with ⟨-, heq⟩ | ⟨v, -, hhttp⟩
  · rw [heq]
    exact HttpConfig.valid_standard
  · exact HttpConfig.valid_of_decode hhttp

/-- The sections that are left out are written at the depth of their defaults. -/
theorem within_toJson {j : Json} {c : ServerConfig} {depth : Nat} (h : decode j = .ok c) (hj : j.Within depth)
    (hdepth : 3 < depth) : c.toJson.Within depth := by
  obtain ⟨rows, hread, hrows⟩ := exists_readFrom h
  obtain ⟨hdeep, hvalues⟩ := hrows depth hj
  have hinner : 1 < depth - 1 := by omega
  have hnothing : RuntimeConfig.standard.toJson.Within (depth - 1) := ⟨hinner, trivial⟩
  have hruntime := RuntimeConfig.shallow.defaulted hnothing hvalues hread.runtime
  have hlogging := LoggingConfig.shallow.defaulted ⟨hinner, trivial, trivial⟩ hvalues hread.logging
  have hhttp := HttpConfig.shallow.defaulted ⟨hinner, trivial, trivial, trivial⟩ hvalues hread.http
  have hsmall : ∀ {n : Nat}, n < 18446744073709551616 → (Json.int n).Within (depth - 1 - 1) := Json.within_int
  have hdispatcher := DispatcherConfig.shallow.defaulted ⟨hinner, hsmall (by decide), hsmall (by decide),
    hsmall (by decide), hsmall (by decide), trivial⟩ hvalues hread.dispatcher
  have hempty : (Json.array ([].map StreamConfig.toJson)).Within (depth - 1) := ⟨hinner, trivial⟩
  have hstreams := StreamConfig.shallow.list.defaulted hempty hvalues hread.streams
  have hschema : c.schema.toJson.Within (depth - 1) := by
    rcases Fields.defaulted_eq_ok_iff.1 hread.schema with ⟨-, heq⟩ | ⟨v, hv, hschema⟩
    · rw [heq]
      exact ⟨hinner, ⟨by omega, trivial⟩, ⟨by omega, trivial⟩, trivial⟩
    · exact Schema.within_toJson hschema (hvalues _ v hv) (by omega)
  obtain ⟨runtime, logging, telemetry, http, dispatcher, streams, schema⟩ := c
  cases telemetry with
  | none => exact ⟨hdeep, hruntime, hlogging, hhttp, hdispatcher, hstreams, hschema, trivial⟩
  | some t =>
    rcases Fields.defaulted_eq_ok_iff.1 hread.telemetry with ⟨-, hnone⟩ | ⟨v, hv, htelemetry⟩
    · cases hnone
    · have htelemetry := TelemetryConfig.shallow (Decoder.eq_ok_of_option htelemetry) (hvalues _ v hv)
      exact ⟨hdeep, hruntime, hlogging, htelemetry, hhttp, hdispatcher, hstreams, hschema, trivial⟩

/-- A configuration that is written repeats no name in an object and has no fractions. -/
theorem legible_toJson (c : ServerConfig) : c.toJson.Legible := by
  have hstreams := Json.legible_list StreamConfig.legible_toJson c.streams
  obtain ⟨runtime, logging, telemetry, http, dispatcher, streams, schema⟩ := c
  have hruntime := runtime.legible_toJson
  have hlogging := logging.legible_toJson
  have hhttp := http.legible_toJson
  have hdispatcher := dispatcher.legible_toJson
  have hschema := schema.legible_toJson
  cases telemetry with
  | none => exact ⟨by simp, hruntime, hlogging, hhttp, hdispatcher, hstreams, hschema, trivial⟩
  | some t => exact ⟨by simp, hruntime, hlogging, t.legible_toJson, hhttp, hdispatcher, hstreams, hschema, trivial⟩

/-- A configuration that was read is read again from what it is written as, and where it was read from a text, its text
is parsed to what it was written as. -/
theorem configuration_reread {j : Json} {c : ServerConfig} (h : decode j = .ok c) :
    decode c.toJson = .ok c ∧ ∀ text, Json.parse text = .ok j → Json.parse c.toJson.render = .ok c.toJson := by
  refine ⟨decode_toJson (valid_of_decode h), fun text hparse => ?_⟩
  have hwithin := within_toJson h (Json.within_parse hparse) (by decide)
  exact Json.parse_render hwithin c.legible_toJson

/-- Most is left out of it, at every level, and its address is not written as it will be. -/
def sparse : Json :=
  .object [("server", .object [("address", .string "[2001:db8:0::1%7]:443")]),
    ("streams", .array [.object [("name", .string "alarms")]]),
    ("schema", .object [("notifications", .array [.object [("kind", .string "list"), ("name", .string "link"),
      ("keys", .array [.string "id"]),
      ("children", .array [.object [("name", .string "id"), ("kind", .string "leaf")]])]])])]

/-- It holds of a document that leaves nearly everything out. -/
theorem configuration_reread_sparse :
    let c : ServerConfig := ⟨.standard, .standard, none, ⟨.v6 [0x2001, 0xdb8, 0, 0, 0, 0, 0, 1] 7 443, "restconf"⟩,
      .standard, [⟨"alarms", none, 0⟩],
      ⟨[], [.mk none "link" .list ["id"] [.mk none "id" .leaf [] []]]⟩⟩
    decode sparse = .ok c ∧ decode c.toJson = .ok c ∧ Json.parse c.toJson.render = .ok c.toJson := by
  intro c
  have hsparse : decode sparse = .ok c := rfl
  have hwithin : sparse.Within Json.maxDepth := by
    simp [sparse, Json.Within, Json.MembersWithin, Json.ItemsWithin, Json.maxDepth]
  have hlegible : sparse.Legible := by
    simp [sparse, Json.Legible, Json.MembersLegible, Json.ItemsLegible]
  obtain ⟨hread, htext⟩ := configuration_reread hsparse
  exact ⟨hsparse, hread, htext sparse.render (Json.parse_render hwithin hlegible)⟩

end ServerConfig

end YangSubscriptions
