import MarketStream.Channel

/-!
# Faults

Everything that can go wrong, by its cause. The wording of a fault, which travels in replies and
stands in the log, is a function of the cause.
-/

namespace MarketStream

/-- Why an operation failed. -/
inductive Fault where
  /-- A text is not the JSON of what was expected. -/
  | unreadable
  /-- A frame on a link is not a feed message. -/
  | badFrame
  /-- A subscription lacks a field its command needs. -/
  | missingField (name : String)
  /-- A stream key cannot be turned into a command. -/
  | unbuildable (reason : String)
  /-- The bus is closed. -/
  | closed
  /-- No complete reply came in time. -/
  | timeout (request : Int64) (limit : Nat)
  /-- A request was given up before a reply completed it. -/
  | noResponse (request : Int64)
  /-- The replying side reported a failure. -/
  | remote (text : String)
  /-- The transport refused a message. -/
  | publish (topic reason : String)
  /-- A subscriber's handler failed, with contexts before the root cause. -/
  | handler (causes : List String)
  /-- A link could not be dialled, read or written. -/
  | connection (reason : String)
  /-- A link could not be secured. -/
  | security (reason : String)
  /-- No credentials could be had, with contexts before the root cause. -/
  | session (causes : List String)
  /-- The peer ended the link. -/
  | streamClosed
  /-- A channel has no link to write to. -/
  | notConnected (channel : Channel)
  /-- There is no such snapshot or subscription. -/
  | notFound (what : String)
  /-- Settings that can be read but not used. -/
  | settings (reason : String)
  /-- Settings that cannot be read. -/
  | unreadableSettings
deriving DecidableEq

namespace Fault

/-- Causes on one line, the outermost context first. -/
def chain (causes : List String) : String := ": ".intercalate causes

/-- The wording of a fault. -/
def message : Fault → String
  | .unreadable => "Decode error: malformed text"
  | .badFrame => "Protocol decode error: malformed text"
  | .missingField name => "Missing field '" ++ name ++ "'"
  | .unbuildable reason => "Cannot build subscription: " ++ reason
  | .closed => "Pub/sub is closed"
  | .timeout request limit =>
    "Timeout: no reply to request " ++ String.ofList (Text.integer request.toInt) ++ " within "
      ++ String.ofList (Text.natural limit) ++ "ms"
  | .noResponse request => "No response to request " ++ String.ofList (Text.integer request.toInt)
  | .remote text => "Remote error: " ++ text
  | .publish topic reason => "Publish to '" ++ topic ++ "' failed: " ++ reason
  | .handler causes => "Handler error: " ++ (causes.head?.getD "")
  | .connection reason => "Connection error: " ++ reason
  | .security reason => "TLS error: " ++ reason
  | .session causes => "Session error: " ++ chain causes
  | .streamClosed => "Feed stream closed by peer"
  | .notConnected channel => "No " ++ channel.name ++ " feed connection established"
  | .notFound what => "Not found: " ++ what
  | .settings reason => "Config error: " ++ reason
  | .unreadableSettings => "Config error: unreadable settings"

/-- Whether the fault is that a subscription's command cannot be built. -/
def isUnbuildable : Fault → Bool
  | .unbuildable _ | .missingField _ => true
  | _ => false

end Fault

/-- What was expected, or that the text is not it. -/
def readOr {α : Type} (found : Option α) : Except Fault α :=
  match found with
  | some a => .ok a
  | none => .error .unreadable

/-- A reading succeeds with what was found. -/
theorem readOr_eq_ok {α : Type} {found : Option α} {a : α} :
    readOr found = .ok a ↔ found = some a := by
  cases found <;> simp [readOr]

end MarketStream
