import YangSubscriptions.Config.SocketAddress
import YangSubscriptions.Schema.Json
import YangSubscriptions.Stream.Config

/-!
# Server configuration

How a server is set up, as it is read from and written to JSON. Every section has a default.
-/

namespace YangSubscriptions

open Json (Mismatch Decoder Fields)

/-- How many threads serve, if that is limited. -/
structure RuntimeConfig where
  threads : Option Nat
  deriving DecidableEq, Repr, Inhabited

structure LoggingConfig where
  level : String
  deriving DecidableEq, Repr, Inhabited

/-- Where metrics go; times are in milliseconds. -/
structure TelemetryConfig where
  url : String
  exporterTimeout : Nat
  readerInterval : Nat
  deriving DecidableEq, Repr, Inhabited

/-- Where the server listens, and the root of its paths. -/
structure HttpConfig where
  address : SocketAddress
  root : String
  deriving DecidableEq, Repr, Inhabited

/-- Sizes of queues, and the time in milliseconds that a receiver is waited for. -/
structure DispatcherConfig where
  commandBuffer : Nat
  listenerBuffer : Nat
  subscriberTimeout : Nat
  routerBuffer : Nat
  deriving DecidableEq, Repr, Inhabited

/-- The sections of a configuration (`SubscriptionServerConfig`). -/
structure ServerConfig where
  runtime : RuntimeConfig
  logging : LoggingConfig
  telemetry : Option TelemetryConfig
  http : HttpConfig
  dispatcher : DispatcherConfig
  streams : List StreamConfig
  schema : Schema
  deriving Repr, Inhabited

/-- Reads an address from its text. -/
def Json.Decoder.socketAddress : Decoder SocketAddress
  | .string s =>
    match SocketAddress.parse? s with
    | some a => .ok a
    | none => .error (.other "invalid socket address syntax")
  | v => .error (.type v "socket address")

namespace RuntimeConfig

def standard : RuntimeConfig := ⟨none⟩

def decode : Decoder RuntimeConfig :=
  Json.record "struct RuntimeConfig" ["threads"] ((Fields.pure mk).also (.nullable "threads" (.natural "usize")))

def toJson (c : RuntimeConfig) : Json :=
  .object (Json.optionalMember "threads" (c.threads.map fun (n : Nat) => Json.int n))

end RuntimeConfig

namespace LoggingConfig

def standard : LoggingConfig := ⟨"info"⟩

def decode : Decoder LoggingConfig :=
  Json.record "struct LoggingConfig" ["level"] ((Fields.pure mk).also (.required "level" .string))

def toJson (c : LoggingConfig) : Json := .object [("level", .string c.level)]

end LoggingConfig

namespace TelemetryConfig

def decode : Decoder TelemetryConfig :=
  Json.record "struct TelemetryConfig" ["url", "exporter_timeout", "reader_interval"]
    ((Fields.pure mk).also (.required "url" .string) |>.also
      (.defaulted "exporter_timeout" (.natural "u64") 5000) |>.also
      (.defaulted "reader_interval" (.natural "u64") 60000))

def toJson (c : TelemetryConfig) : Json :=
  .object [("url", .string c.url), ("exporter_timeout", .int c.exporterTimeout),
    ("reader_interval", .int c.readerInterval)]

end TelemetryConfig

namespace HttpConfig

/-- The address and root for when none are given (`default_address`, `default_root`). -/
def standard : HttpConfig := ⟨.loopback 8181, "restconf"⟩

def decode : Decoder HttpConfig :=
  Json.record "struct HttpConfig" ["address", "root"]
    ((Fields.pure mk).also (.defaulted "address" .socketAddress standard.address) |>.also
      (.defaulted "root" .string standard.root))

def toJson (c : HttpConfig) : Json := .object [("address", .string c.address.render), ("root", .string c.root)]

end HttpConfig

namespace DispatcherConfig

/-- The sizes for when none are given (`default_cmd_size_buffer`, `default_buffer_size`). -/
def standard : DispatcherConfig := ⟨100, 1000, 100, 1000⟩

def decode : Decoder DispatcherConfig :=
  Json.record "struct DispatcherConfig"
    ["cmd_buffer_size", "listener_buffer_size", "subscriber_timeout", "router_buffer_size"]
    ((Fields.pure mk).also (.defaulted "cmd_buffer_size" (.natural "usize") standard.commandBuffer) |>.also
      (.defaulted "listener_buffer_size" (.natural "usize") standard.listenerBuffer) |>.also
      (.defaulted "subscriber_timeout" (.natural "u64") standard.subscriberTimeout) |>.also
      (.defaulted "router_buffer_size" (.natural "usize") standard.routerBuffer))

def toJson (c : DispatcherConfig) : Json :=
  .object [("cmd_buffer_size", .int c.commandBuffer), ("listener_buffer_size", .int c.listenerBuffer),
    ("subscriber_timeout", .int c.subscriberTimeout), ("router_buffer_size", .int c.routerBuffer)]

end DispatcherConfig

namespace ServerConfig

/-- Reads a configuration; what is left out has its default. -/
def decode : Decoder ServerConfig :=
  Json.record "struct SubscriptionServerConfig"
    ["runtime", "logging", "telemetry", "server", "dispatcher", "streams", "schema"]
    ((Fields.pure mk).also (.defaulted "runtime" RuntimeConfig.decode .standard) |>.also
      (.defaulted "logging" LoggingConfig.decode .standard) |>.also
      (.defaulted "telemetry" (.option TelemetryConfig.decode) none) |>.also
      (.defaulted "server" HttpConfig.decode .standard) |>.also
      (.defaulted "dispatcher" DispatcherConfig.decode .standard) |>.also
      (.defaulted "streams" (.list StreamConfig.decode) []) |>.also
      (.defaulted "schema" Schema.decode .empty))

/-- Writes a configuration, with no member for telemetry that is off. -/
def toJson (c : ServerConfig) : Json :=
  .object ([("runtime", c.runtime.toJson), ("logging", c.logging.toJson)] ++
    Json.optionalMember "telemetry" (c.telemetry.map TelemetryConfig.toJson) ++
    [("server", c.http.toJson), ("dispatcher", c.dispatcher.toJson),
      ("streams", .array (c.streams.map StreamConfig.toJson)), ("schema", c.schema.toJson)])

end ServerConfig

end YangSubscriptions
