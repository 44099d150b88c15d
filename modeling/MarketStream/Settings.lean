import MarketStream.Command
import MarketStream.Json.Sparse

/-!
# Settings

How a feed is connected to and watched. Settings have one strict text, in which every field is
written; a field that is left out takes its default.

* `Settings` with its sections `Security`, `Reconnect`, `Heartbeat`;
* `Settings.validate` — refuses settings with which a feed would misbehave;
* `Settings.loginReplay` — what a channel asks to be repeated at login.
-/

namespace MarketStream

namespace Settings

/-- How links are secured. -/
structure Security where
  /-- Certificates are not checked. -/
  acceptInvalidCerts : Bool := false
  /-- The name of the other side is not checked. -/
  acceptInvalidHostnames : Bool := false
  /-- The name to check, if not that of the address. -/
  domain : Option String := none
deriving DecidableEq

/-- How long to wait before dialling again. -/
structure Reconnect where
  /-- The length of a window in seconds. -/
  windowSecs : UInt64 := 60
  /-- The waits within a window, in milliseconds, the last one repeating. -/
  delaysMs : List UInt64 := [0, 5000, 30000]
deriving DecidableEq

/-- How the silence of a channel is noticed. -/
structure Heartbeat where
  /-- The seconds between two checks. -/
  intervalSecs : UInt64 := 10
  /-- The seconds of silence after which a channel is probed. -/
  staleAfterSecs : UInt64 := 10
deriving DecidableEq

end Settings

/-- How a feed is connected to and watched. -/
structure Settings where
  /-- How links are secured. -/
  security : Settings.Security := {}
  /-- How long to wait before dialling again. -/
  reconnect : Settings.Reconnect := {}
  /-- How the silence of a channel is noticed. -/
  heartbeat : Settings.Heartbeat := {}
  /-- How many errors a status report tells of. -/
  maxInfoEntries : UInt64 := 100
  /-- The private channel repeats deleted orders at login. -/
  requestDeletedOrders : Bool := true
deriving DecidableEq

namespace Settings

/-- Settings with every default. -/
def standard : Settings := {}

/-- Refuses settings with which a feed would misbehave. -/
def validate (s : Settings) : Except Fault Settings :=
  if s.reconnect.delaysMs = [] then .error (.settings "reconnect.delays_ms must not be empty")
  else if s.reconnect.windowSecs = 0 then
    .error (.settings "reconnect.window_secs must be positive")
  else if s.heartbeat.intervalSecs = 0 then
    .error (.settings "heartbeat.interval_secs must be positive")
  else .ok s

/-- What a channel asks to be repeated at login. -/
def loginReplay (s : Settings) : Channel → Option LoginReplay
  | .private => if s.requestDeletedOrders then some ⟨true, none⟩ else none
  | .public => none

/-! ## Texts -/

/-- The text of an unsigned number. -/
def writeUnsigned (n : UInt64) : List Char := Text.natural n.toNat

/-- The text of the security section. -/
def Security.write (s : Security) : List Char :=
  Json.record [("accept_invalid_certs", Json.writeBool s.acceptInvalidCerts),
    ("accept_invalid_hostnames", Json.writeBool s.acceptInvalidHostnames),
    ("domain", (s.domain.map Json.quote).getD Json.writeNull)]

/-- The text of the reconnect section. -/
def Reconnect.write (s : Reconnect) : List Char :=
  Json.record [("window_secs", writeUnsigned s.windowSecs),
    ("delays_ms", Json.list (s.delaysMs.map writeUnsigned))]

/-- The text of the heartbeat section. -/
def Heartbeat.write (s : Heartbeat) : List Char :=
  Json.record [("interval_secs", writeUnsigned s.intervalSecs),
    ("stale_after_secs", writeUnsigned s.staleAfterSecs)]

/-- The text of settings. -/
def write (s : Settings) : List Char :=
  Json.record [("tls", s.security.write), ("reconnect", s.reconnect.write),
    ("heartbeat", s.heartbeat.write), ("max_info_entries", writeUnsigned s.maxInfoEntries),
    ("request_deleted_orders", Json.writeBool s.requestDeletedOrders)]

/-- The text of settings. -/
def text (s : Settings) : String := String.ofList s.write

/-- Reads the security section from a delimited text. -/
def Security.read? (input : Json.Input) : Option Security := do
  let r ← Json.fields? ["accept_invalid_certs", "accept_invalid_hostnames", "domain"] input
  let acceptInvalidCerts ← r.orElse "accept_invalid_certs" false Json.truth?
  let acceptInvalidHostnames ← r.orElse "accept_invalid_hostnames" false Json.truth?
  let domain ← r.orElse "domain" none (Json.optional? Json.text?)
  return { acceptInvalidCerts, acceptInvalidHostnames, domain }

/-- Reads the reconnect section from a delimited text. -/
def Reconnect.read? (input : Json.Input) : Option Reconnect := do
  let standard : Reconnect := {}
  let r ← Json.fields? ["window_secs", "delays_ms"] input
  let windowSecs ← r.orElse "window_secs" standard.windowSecs Json.uint64?
  let delaysMs ← r.orElse "delays_ms" standard.delaysMs (Json.each? Json.uint64?)
  return { windowSecs, delaysMs }

/-- Reads the heartbeat section from a delimited text. -/
def Heartbeat.read? (input : Json.Input) : Option Heartbeat := do
  let standard : Heartbeat := {}
  let r ← Json.fields? ["interval_secs", "stale_after_secs"] input
  let intervalSecs ← r.orElse "interval_secs" standard.intervalSecs Json.uint64?
  let staleAfterSecs ← r.orElse "stale_after_secs" standard.staleAfterSecs Json.uint64?
  return { intervalSecs, staleAfterSecs }

/-- Reads settings from a delimited text. -/
def read? (input : Json.Input) : Option Settings := do
  let r ← Json.fields?
    ["tls", "reconnect", "heartbeat", "max_info_entries", "request_deleted_orders"] input
  let security ← r.orElse "tls" {} Security.read?
  let reconnect ← r.orElse "reconnect" {} Reconnect.read?
  let heartbeat ← r.orElse "heartbeat" {} Heartbeat.read?
  let maxInfoEntries ← r.orElse "max_info_entries" standard.maxInfoEntries Json.uint64?
  let requestDeletedOrders ←
    r.orElse "request_deleted_orders" standard.requestDeletedOrders Json.truth?
  return { security, reconnect, heartbeat, maxInfoEntries, requestDeletedOrders }

/-- Reads settings. -/
def decode? (bytes : Bytes) : Option Settings := (Json.document? bytes).bind read?

end MarketStream.Settings
