import MarketStream.Command
import MarketStream.Channel

/-!
# Outgoing lines

Commands are queued on a line, which leads to the peer as long as its session lasts. Whoever holds
the number of a line can write to it; once the other end is gone, writing fails.

* `Line` — one line; `Switchboard` — all lines there have been, by number;
* `Switchboard.attach`, `write`, `writeAll`, `drain`, `hangUp` — what can be done with them.
-/

namespace MarketStream.Link

/-- A way to the peer of one session. -/
structure Line where
  /-- The channel it belongs to. -/
  channel : Channel
  /-- Whether the other end still takes commands. -/
  isOpen : Bool
  /-- The commands queued and not yet taken, oldest first. -/
  queued : List Command
deriving DecidableEq

/-- All lines there have been, numbered from zero. -/
structure Switchboard where
  /-- The lines, oldest first. -/
  lines : List Line
deriving DecidableEq

namespace Switchboard

/-- No lines yet. -/
def empty : Switchboard := ⟨[]⟩

/-- Adds an open line and gives its number. -/
def attach (b : Switchboard) (channel : Channel) : Switchboard × Nat :=
  (⟨b.lines ++ [⟨channel, true, []⟩]⟩, b.lines.length)

/-- The line of a number, if it is open. -/
def open? (b : Switchboard) (n : Nat) : Option Line := (b.lines[n]?).filter Line.isOpen

/-- Whether a line is open. -/
def isOpen (b : Switchboard) (n : Nat) : Bool := (b.open? n).isSome

/-- Queues a command on a line of a channel. -/
def write (b : Switchboard) (channel : Channel) (n : Nat) (c : Command) :
    Except Fault Switchboard :=
  if b.isOpen n then
    .ok ⟨b.lines.modify n fun line => { line with queued := line.queued ++ [c] }⟩
  else .error (.notConnected channel)

/-- Queues commands on a line of a channel, up to the first that fails. -/
def writeAll (b : Switchboard) (channel : Channel) (n : Nat) : List Command → Switchboard
  | [] => b
  | c :: rest =>
    match b.write channel n c with
    | .ok b => b.writeAll channel n rest
    | .error _ => b

/-- Takes what is queued on a line. -/
def drain (b : Switchboard) (n : Nat) : Switchboard × List Command :=
  (⟨b.lines.modify n fun line => { line with queued := [] }⟩,
    ((b.lines[n]?).map Line.queued).getD [])

/-- The other end of a line goes away; what is queued is lost. -/
def hangUp (b : Switchboard) (n : Nat) : Switchboard :=
  ⟨b.lines.modify n fun line => { line with isOpen := false, queued := [] }⟩

end MarketStream.Link.Switchboard
