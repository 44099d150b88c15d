import MarketStream.Fault
import MarketStream.Json.Writer

/-!
# Commands

What is sent to a feed: a named command with arguments, one to a line. The text of a command holds
no line break of its own, so a line is always one command.

* `Command` — a command; `Command.line` — its line;
* `Command.login`, `Command.heartbeat` — the commands a link sends by itself;
* `LoginReplay` — what the private channel is asked to repeat at login.
-/

namespace MarketStream

/-- What the private channel is asked to repeat at login. -/
structure LoginReplay where
  /-- Deleted orders too. -/
  deletedOrders : Bool
  /-- How many days back, if not left to the server. -/
  days : Option Int64
deriving DecidableEq

/-- A command to the feed. -/
structure Command where
  /-- What to do. -/
  name : String
  /-- What to do it with. -/
  args : Json.Value
deriving DecidableEq

namespace Command

/-- The text of a command. -/
def write (c : Command) : List Char :=
  Json.record [("cmd", Json.quote c.name), ("args", c.args.write)]

/-- The text of a command. -/
def text (c : Command) : String := String.ofList c.write

/-- The line of a command. -/
def line (c : Command) : List Char := c.write ++ ['\n']

/-- The line of a command. -/
def lineText (c : Command) : String := String.ofList c.line

/-- Reads a command from a delimited text. -/
def read? (input : Json.Input) : Option Command := do
  let fields ← Json.fields? ["cmd", "args"] input
  let name ← fields.required "cmd" Json.text?
  let args ← fields.required "args" Json.value?
  return ⟨name, args⟩

/-- Reads a command. -/
def decode? (bytes : Bytes) : Option Command := (Json.document? bytes).bind read?

/-- Asks for a channel to be opened under a session key, perhaps with a replay. -/
def login (sessionKey : String) (replay : Option LoginReplay) : Command :=
  let session := [("session_key", Json.Value.string sessionKey)]
  let wanted := match replay with
    | none => []
    | some r =>
      let days := match r.days with
        | none => []
        | some n => [("days", Json.Value.ofInt64 n)]
      [("get_state", Json.Value.ofList (days ++ [("deleted_orders", .bool r.deletedOrders)]))]
  ⟨"login", .ofList (session ++ wanted)⟩

/-- Shows the feed that this side is alive. -/
def heartbeat : Command := ⟨"heartbeat", .object []⟩

/-- The same arguments under another name. -/
def withName (c : Command) (name : String) : Command := { c with name }

end MarketStream.Command
