import MarketStream.Link.Connection

/-!
# A link on its own

A link whose listener sends the same commands whenever a session opens and only looks on otherwise.

* `Greeter` — the link with its switchboard and clock;
* `Greeter.advance` — lets time pass; `Greeter.write`, `Greeter.close` — what can be done with it.
-/

namespace MarketStream.Link

/-- A link with a listener that greets. -/
structure Greeter where
  /-- The link. -/
  connection : Connection
  /-- The lines of its sessions. -/
  board : Switchboard
  /-- What is sent when a session opens. -/
  greeting : List Command
  /-- The present instant in milliseconds. -/
  now : Nat

namespace Greeter

/-- A link that is started at the beginning of time. -/
def start (settings : Settings) (channel : Channel) (attempts : List Attempt)
    (greeting : List Command) : Greeter :=
  ⟨.start settings channel 0 attempts, .empty, greeting, 0⟩

/-- Writes what is queued. -/
def flush (g : Greeter) : Greeter :=
  match g.connection.flush g.board g.now with
  | (connection, board) => { g with connection, board }

/-- An event happens, and the listener greets if a session opens. -/
def undergo (g : Greeter) (now : Nat) (e : Event) : Greeter :=
  match g.connection.undergo g.board now e with
  | (connection, board) =>
    let board := match e, connection.writer? with
      | .opened _ _, some n => board.writeAll connection.channel n g.greeting
      | _, _ => board
    { g with connection, board, now }

/-- Events happen, and what is queued is written at the end of each instant. -/
def undergoAll (g : Greeter) : Timeline → Greeter
  | [] => g
  | (now, e) :: rest =>
    let g := g.undergo now e
    let isLast := rest.head?.all fun next => decide (next.1 ≠ now)
    (if isLast then g.flush else g).undergoAll rest

/-- Everything up to an instant happens, and the instant comes. -/
def advance (g : Greeter) (limit : Nat) : Greeter :=
  let isDue := fun (entry : Nat × Event) => decide (entry.1 ≤ limit)
  let rested := { g.connection with ahead := g.connection.ahead.dropWhile isDue }
  let g := { g with connection := rested }.undergoAll (g.connection.ahead.takeWhile isDue)
  { g with now := max g.now limit }

/-- Queues a command on the line of a session, and writes it. -/
def write (g : Greeter) (command : Command) : Greeter × Except Fault Unit :=
  match g.connection.write g.board command with
  | .ok board => ({ g with board }.flush, .ok ())
  | .error e => (g, .error e)

/-- Queues a command on the line of the first session, if there has been one, and tells whether
that line was still open. -/
def writeFirst (g : Greeter) (command : Command) : Greeter × Option (Bool × Except Fault Unit) :=
  if g.board.lines.isEmpty then (g, none)
  else
    let wasOpen := g.board.isOpen 0
    match g.board.write g.connection.channel 0 command with
    | .ok board => ({ g with board }.flush, some (wasOpen, .ok ()))
    | .error e => (g, some (wasOpen, .error e))

/-- Whether the link takes commands. -/
def isConnected (g : Greeter) : Bool := g.connection.isConnected g.board

/-- Ends the link. -/
def close (g : Greeter) : Greeter :=
  match g.connection.close g.board with
  | (connection, board) => { g with connection, board }

end MarketStream.Link.Greeter
