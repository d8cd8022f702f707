import ServerPoller.Lib.Json
import ServerPoller.Lib.RustText
import Mathlib.Algebra.Order.Field.Rat

/-! The settings the collector reads, the polling state of a server, and how `models.rs` gets it
from a catalog object. Times and intervals are exact seconds. -/

namespace ServerPoller
open Json RustText

structure CollectorSettings where
  onlineIntervalSeconds : Nat
  offlineIntervalSeconds : Nat
  pageSize : Nat
  maxConcurrency : Nat
  startupSpreadSeconds : Nat
  resultQueueMaxsize : Nat
  bedrockProbeIntervalSeconds : Nat
  bedrockProbeJitterSeconds : Nat
  initialFailuresBeforeSlowdown : Nat
  initialFailureSlowdownMultiplier : ℚ
  initialFailureMaxIntervalSeconds : Nat
  pluginCompareIntervalSeconds : Nat
  pluginFallbackStaleSeconds : Nat
  heartbeatIntervalSeconds : Nat

structure Settings where
  collector : CollectorSettings
  redisEnabled : Bool

/-- What comes from other crates: RFC 3339 timestamps in nanoseconds, and SHA-256 in hexadecimal. -/
structure Crates where
  parseFromRfc3339 : String → Option Int
  sha256 : String → String

/-- A draw from `0.0..1.0`; `gen_range(0.0..spread)` is one times `spread`. -/
abbrev UnitDraw := { q : ℚ // 0 ≤ q ∧ q < 1 }

/-- A draw from `-1.0..1.0`. -/
abbrev SignedDraw := { q : ℚ // -1 ≤ q ∧ q < 1 }

/-- A draw from `-0.1..0.1`. -/
abbrev JitterDraw := { q : ℚ // -1 / 10 ≤ q ∧ q < 1 / 10 }

inductive Edition where
  | java
  | bedrock
  deriving DecidableEq, Repr

structure Address where
  host : String
  port : Option UInt16
  bedrockPort : Option UInt16
  edition : Edition
  deriving DecidableEq, Repr

structure Failures where
  hasSucceeded : Bool
  initialFailures : Nat
  consecutiveFailures : Nat
  deriving DecidableEq, Repr

structure Emitted where
  hasEmittedState : Bool
  lastEmittedUp : Option Bool
  lastEmittedOnline : Option Int64
  lastEmittedMaxPlayers : Option Int64
  lastEmittedVersion : Option String
  lastEmittedMotd : Option String
  lastEmittedCountry : Option String
  lastEmittedCountryCode : Option String
  lastEmittedPlayersHash : Option String
  lastEmittedAt : Option ℚ
  deriving DecidableEq, Repr

/-- The fields of `ServerState`, those of the address, of the failure counters and of the last
emission in structures of their own. -/
structure ServerState extends Address, Failures, Emitted where
  key : String
  serverId : String
  server : Value
  nextDue : ℚ
  nextBedrockProbe : Option ℚ
  nextQueryAttempt : ℚ
  pluginManaged : Bool
  pluginFallbackMode : Bool
  lastFaviconHash : Option String

def nothingEmitted : Emitted := ⟨false, none, none, none, none, none, none, none, none, none⟩

def ServerState.resetEmitted (s : ServerState) : ServerState := { s with toEmitted := nothingEmitted }

def javaDefaultPort : UInt16 := 25565

def bedrockDefaultPort : UInt16 := 19132

def Edition.defaultPort : Edition → UInt16
  | .java => javaDefaultPort
  | .bedrock => bedrockDefaultPort

/-- "host[:port]" including IPv6 bracket notation. -/
def parseAddress (value : String) : String × Option UInt16 :=
  let plain :=
    if value.toList.count ':' = 1 then
      match parseU16 (String.ofList ((value.toList.dropWhile (· ≠ ':')).drop 1)) with
      | some port => (String.ofList (value.toList.takeWhile (· ≠ ':')), some port)
      | none => (value, none)
    else (value, none)
  match value.toList with
  | '[' :: inner =>
      if ']' ∈ inner then
        let host := String.ofList (inner.takeWhile (· ≠ ']'))
        match (inner.dropWhile (· ≠ ']')).drop 1 with
        | ':' :: portStr => (host, parseU16 (String.ofList portStr))
        | _ => (host, none)
      else plain
  | _ => plain

def normalizeEdition (value : Option String) : Edition :=
  match value with
  | some v => if toLowercase v = "bedrock" then .bedrock else .java
  | none => .java

/-- A port field: a number is truncated to 16 bits, a text must be a port. -/
def portField (server : Value) (field : String) : Option UInt16 :=
  match server.get field with
  | some (.number n) => n.asU64.map UInt64.toUInt16
  | some (.string s) => parseU16 s
  | _ => none

def resolveStatePorts (server : Value) (host : String) (parsedPort : Option UInt16) (edition : Edition) :
    Option UInt16 × Option UInt16 :=
  let port := match portField server "ping_port" with
    | some pp =>
        -- the default Java port is left to SRV records unless the host is an address
        if edition ≠ .bedrock ∧ pp = javaDefaultPort ∧ isIpAddr host = false then parsedPort else some pp
    | none => parsedPort
  let bedrockPort := portField server "bedrock_port"
  (if edition = .bedrock ∧ port = none then bedrockPort else port, bedrockPort)

def strField (server : Value) (field : String) : Option String := (server.get field).bind Value.asStr

/-- The text of the `id` field, which keys the states map. -/
def itemKey (server : Value) : String :=
  match server.get "id" with
  | some (.number n) => n.render
  | some (.string s) => s
  | some other => other.render
  | none => ""

def hostValue (server : Value) : String :=
  (((strField server "ping_ip_or_domain").filter (· ≠ "")).or (strField server "ip_or_domain")).getD ""

/-- Host, ports and edition as both `refresh_servers_once` and `build_state` work them out. -/
def itemAddress (server : Value) : Address :=
  let (host, parsedPort) := parseAddress (hostValue server)
  let edition := normalizeEdition (strField server "game_edition")
  let (port, bedrockPort) := resolveStatePorts server host parsedPort edition
  ⟨host, port, bedrockPort, edition⟩

def isPluginManaged (server : Value) : Bool :=
  if ((server.get "is_verified").bind Value.asBool).getD false then
    toLowercase (trim ((strField server "verification_source").getD "")) == "plugin"
  else false

def isInternalOnlyHost (host : String) : Bool := (toLowercase (trim host)).startsWith "internal-"

section Catalog
variable (crates : Crates)

def parsePluginLastSeenAt (server : Value) : Option Int := do
  let raw := trim (← strField server "verified_plugin_last_seen_at")
  if raw = "" then none else crates.parseFromRfc3339 raw

/-- `now` in nanoseconds, like the parsed timestamps. -/
def isPluginFallbackMode (server : Value) (staleAfterSeconds : Nat) (now : Int) : Bool :=
  if isPluginManaged server then
    match parsePluginLastSeenAt crates server with
    | none => true
    | some lastSeenAt => decide (((max staleAfterSeconds 60 * 1000000000 : Nat) : Int) ≤ now - lastSeenAt)
  else false

def wantsBedrockProbe (server : Value) (probeInterval : Nat) : Bool :=
  if probeInterval = 0 then false
  else toLowercase ((strField server "game_edition").getD "java") == "java"

def seedBedrockProbe (server : Value) (now : ℚ) (probeInterval : Nat) (draw : UnitDraw) : Option ℚ :=
  if wantsBedrockProbe server probeInterval then some (now + draw * max (probeInterval : ℚ) 1) else none

def scheduleNextBedrockProbe (server : Value) (now : ℚ) (probeInterval probeJitter : Nat)
    (draw : SignedDraw) : Option ℚ :=
  if wantsBedrockProbe server probeInterval then
    some (now + max ((probeInterval : ℚ) + draw * probeJitter) 60)
  else none

/-- The random numbers and the wall clock reading used up for one catalog object. -/
structure ItemContext where
  spread : UnitDraw
  probe : UnitDraw
  utcNow : Int

def buildState (settings : Settings) (server : Value) (now : ℚ) (ctx : ItemContext) : ServerState where
  toAddress := itemAddress server
  toFailures := ⟨false, 0, 0⟩
  toEmitted := nothingEmitted
  key := itemKey server
  serverId := itemKey server
  server := server
  nextDue := now + ctx.spread * max (settings.collector.startupSpreadSeconds : ℚ) 1
  nextBedrockProbe := seedBedrockProbe server now settings.collector.bedrockProbeIntervalSeconds ctx.probe
  nextQueryAttempt := now
  pluginManaged := isPluginManaged server
  pluginFallbackMode :=
    isPluginFallbackMode crates server settings.collector.pluginFallbackStaleSeconds ctx.utcNow
  lastFaviconHash := none

end Catalog

/-- A server as it is when tracking starts, or starts anew at another address. -/
def ServerState.Fresh (s : ServerState) : Prop := s.toEmitted = nothingEmitted

example : parseAddress "[::1]:25565" = ("::1", some 25565) ∧
    parseAddress "mc.example.com:25566" = ("mc.example.com", some 25566) ∧
    parseAddress "2001:db8::1" = ("2001:db8::1", none) := by decide

end ServerPoller
