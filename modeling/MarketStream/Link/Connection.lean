import MarketStream.Link.Line
import MarketStream.Link.Timeline

/-!
# A running link

A link works through its timeline. While a session is open, the link has a line on the switchboard,
and what is queued there is written to the peer once everything that happens at an instant has
happened; the login is the first write of a session, before any command. When the attempt ends, or
the link is closed, the line is hung up.

* `Connection` — a link, with what is ahead of it and what it has done;
* `Connection.undergo` — an event happens; `Connection.flush` — queued commands are written;
* `Connection.write`, `Connection.isConnected`, `Connection.close` — what its holder can do.
-/

namespace MarketStream.Link

/-- The way out of an open session. -/
structure Outlet where
  /-- The number of its line. -/
  line : Nat
  /-- How many writes there have been, with the login. -/
  count : Nat
  /-- The first write that fails. -/
  failingWrite : Option Nat
deriving DecidableEq

/-- A link. -/
structure Connection where
  /-- Its channel. -/
  channel : Channel
  /-- What is still to happen. -/
  ahead : Timeline
  /-- What has happened. -/
  past : Timeline
  /-- The way out, while a session is open. -/
  outlet : Option Outlet
  /-- What has been written, with the instants. -/
  written : List (Nat × Command)
  /-- It was closed. -/
  isClosed : Bool

namespace Connection

/-- A link that is started at an instant. -/
def start (settings : Settings) (channel : Channel) (now : Nat) (attempts : List Attempt) :
    Connection :=
  ⟨channel, timeline settings channel now attempts, [], none, [], false⟩

/-- Hangs up the line of the session, if there is one. -/
def hangUp (c : Connection) (board : Switchboard) : Connection × Switchboard :=
  ({ c with outlet := none }, c.outlet.elim board fun o => board.hangUp o.line)

/-- What an event does to the link itself. -/
def undergo (c : Connection) (board : Switchboard) (now : Nat) (e : Event) :
    Connection × Switchboard :=
  let c := { c with past := c.past ++ [(now, e)] }
  match e with
  | .opened login failingWrite =>
    match board.attach c.channel with
    | (board, n) =>
      let outlet := some ⟨n, 1, failingWrite⟩
      ({ c with outlet, written := c.written ++ [(now, login)] }, board)
  | .failed _ => c.hangUp board
  | .asked _ | .dialled _ | .received _ | .woken => (c, board)

/-! ## Writing -/

/-- The commands that can be written after some writes, and whether one of them fails. -/
def writable (o : Outlet) : List Command → List Command × Bool
  | [] => ([], false)
  | c :: rest =>
    if failsAt o.failingWrite (o.count + 1) then ([], true)
    else
      match writable { o with count := o.count + 1 } rest with
      | (sent, failed) => (c :: sent, failed)

/-- Writes what is queued. After a write that fails the line takes no more, though the session goes
on as long as the peer is heard. -/
def flush (c : Connection) (board : Switchboard) (now : Nat) : Connection × Switchboard :=
  match c.outlet with
  | none => (c, board)
  | some o =>
    match board.drain o.line with
    | (board, queued) =>
      match writable o queued with
      | (sent, failed) =>
        ({ c with
            outlet := some { o with count := o.count + sent.length }
            written := c.written ++ sent.map fun command => (now, command) },
          if failed then board.hangUp o.line else board)

/-! ## What its holder can do -/

/-- The number of the line to write to. -/
def writer? (c : Connection) : Option Nat := c.outlet.map Outlet.line

/-- Whether there is a line that takes commands. -/
def isConnected (c : Connection) (board : Switchboard) : Bool := c.writer?.any board.isOpen

/-- Queues a command for the peer. -/
def write (c : Connection) (board : Switchboard) (command : Command) : Except Fault Switchboard :=
  match c.writer? with
  | none => .error (.notConnected c.channel)
  | some n => board.write c.channel n command

/-- Ends the link: nothing happens on it any more. -/
def close (c : Connection) (board : Switchboard) : Connection × Switchboard :=
  hangUp { c with ahead := [], isClosed := true } board

end MarketStream.Link.Connection
