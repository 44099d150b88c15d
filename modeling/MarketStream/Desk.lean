import MarketStream.Aggregator.Admin
import MarketStream.Bus.Exchange
import MarketStream.Desk.Alarms
import MarketStream.Link.Connection

/-!
# The desk

A desk runs an aggregator. It starts the links of both channels, which report to the aggregator,
and monitors, which probe silent channels at fixed intervals. It passes frames on and takes
requests off a bus. Its clock moves only when told to; what falls due on the way happens in the
order of the instants, and at one instant in the order in which it was waited for.

* `Desk` — the aggregator with all that it runs on;
* `Desk.connect`, `Desk.receive`, `Desk.fail` — what a channel reports;
* `Desk.start`, `Desk.monitor`, `Desk.close` — what runs;
* `Desk.advance` — lets time pass; `Desk.publish` — a message on the bus.
-/

namespace MarketStream

/-- An aggregator with all that it runs on. -/
structure Desk where
  /-- The aggregator. -/
  aggregator : Aggregator
  /-- The links that were started. -/
  links : ByChannel (Option Link.Connection)
  /-- Who waits for which instant. -/
  alarms : Desk.Alarms
  /-- How many monitors there have been. -/
  monitors : Nat
  /-- The bus on which requests come in. -/
  exchange : Bus.Exchange Unit
  /-- Whether frames that are passed on get lost. -/
  isMuted : Bool
  /-- The frames passed on so far, oldest first. -/
  passed : List Frame
  /-- The present instant in milliseconds. -/
  now : Nat
  /-- The times of day that are shown one after another. -/
  timesOfDay : Nat → String
  /-- How many times the time of day has been asked for. -/
  readings : Nat

namespace Desk

/-- A desk on which nothing has happened, with a supply of ids for its subscriptions. -/
def fresh (settings : Settings) (ids timesOfDay : Nat → String) : Desk :=
  ⟨.fresh settings ids, .both none, [], 0, .empty, false, [], 0, timesOfDay, 0⟩

/-- Asks for the time of day. -/
def reading (d : Desk) : Desk × Moment :=
  ({ d with readings := d.readings + 1 }, ⟨d.now, d.timesOfDay d.readings⟩)

/-- Changes the lines there have been. -/
def onBoard (d : Desk) (f : Link.Switchboard → Link.Switchboard) : Desk :=
  { d with aggregator := { d.aggregator with board := f d.aggregator.board } }

/-! ## What a channel reports -/

/-- A channel came up with a line. -/
def connect (d : Desk) (channel : Channel) (line : Nat) : Desk :=
  match d.reading with
  | (d, now) => { d with aggregator := d.aggregator.onConnect now channel line }

/-- Passes a frame on. -/
def pass (d : Desk) (f : Frame) : Desk :=
  if d.isMuted then d else { d with passed := d.passed ++ [f] }

/-- A channel brought a frame. -/
def receive (d : Desk) (channel : Channel) (f : Frame) : Desk :=
  match d.reading with
  | (d, now) =>
    match d.aggregator.onFrame now channel f with
    | (aggregator, out) => out.elim { d with aggregator } { d with aggregator }.pass

/-- A channel failed. -/
def fail (d : Desk) (channel : Channel) (fault : Fault) : Desk :=
  match d.reading with
  | (d, now) => { d with aggregator := d.aggregator.onError now channel fault }

/-- Something happens on the link of a channel, which reports it. -/
def undergo (d : Desk) (channel : Channel) (e : Link.Event) : Desk :=
  match d.links.get channel with
  | none => d
  | some link =>
    match link.undergo d.aggregator.board d.now e with
    | (link, board) =>
      let d := { d.onBoard fun _ => board with links := d.links.set channel (some link) }
      match e with
      | .opened _ _ => link.writer?.elim d (d.connect channel)
      | .received f => d.receive channel f
      | .failed fault => d.fail channel fault
      | .asked _ | .dialled _ | .woken => d

/-- Writes what is queued for the peer of a channel. -/
def flushLink (d : Desk) (channel : Channel) : Desk :=
  match d.links.get channel with
  | none => d
  | some link =>
    match link.flush d.aggregator.board d.now with
    | (link, board) => { d.onBoard fun _ => board with links := d.links.set channel (some link) }

/-- Writes what is queued for both peers. -/
def flush (d : Desk) : Desk := Channel.all.foldl flushLink d

/-! ## Waking -/

/-- Sets an alarm. -/
def sleep (d : Desk) (due : Nat) (sleeper : Sleeper) : Desk :=
  { d with alarms := d.alarms.set ⟨due, sleeper⟩ }

/-- Sets the alarm of a link for what is ahead of it. -/
def sleepLink (d : Desk) (channel : Channel) : Desk :=
  match (d.links.get channel).bind fun link => link.ahead.head? with
  | none => d
  | some next => d.sleep next.1 (.link channel)

/-- On the link of a channel everything happens that falls on the present instant. -/
def wakeLink (d : Desk) (channel : Channel) : Desk :=
  match d.links.get channel with
  | none => d
  | some link =>
    let isNow := fun (entry : Nat × Link.Event) => entry.1 == d.now
    let rested := { link with ahead := link.ahead.dropWhile isNow }
    let begun := { d with links := d.links.set channel (some rested) }
    ((link.ahead.takeWhile isNow).foldl (fun d entry => d.undergo channel entry.2) begun).sleepLink
      channel

/-- The interval between two checks, in milliseconds. -/
def interval (d : Desk) : Nat := d.aggregator.settings.heartbeat.intervalSecs.toNat * 1000

/-- Probes the silent channels, and gives those that a heartbeat was sent to. -/
def check (d : Desk) : Desk × List Channel :=
  match d.aggregator.probe d.now with
  | (aggregator, probed) => ({ d with aggregator }, probed)

/-- A monitor probes the silent channels and waits for its next check. -/
def wakeMonitor (d : Desk) (number : Nat) : Desk :=
  d.check.1.sleep (d.now + d.interval) (.monitor number)

/-- Someone is woken. -/
def wake (d : Desk) : Sleeper → Desk
  | .link channel => d.wakeLink channel
  | .monitor number => d.wakeMonitor number

/-- Alarms up to an instant go off, at most so many of them. What was queued at an instant is
written at its end. -/
def run (limit : Nat) : (fuel : Nat) → Desk → Desk
  | 0, d => d
  | fuel + 1, d =>
    match d.alarms with
    | [] => d
    | a :: rest =>
      if a.due ≤ limit then
        let woken := { d with alarms := rest, now := a.due }.wake a.sleeper
        run limit fuel (if woken.alarms.goesOnAt a.due then woken else woken.flush)
      else d

/-- How much is ahead of a link. -/
def ahead (d : Desk) (channel : Channel) : Nat :=
  ((d.links.get channel).map fun link => link.ahead.length).getD 0

/-- Lets time pass. Every alarm of a link takes something from what is ahead of it, and a monitor
has at most one alarm at an instant, which bounds how many go off. -/
def advance (d : Desk) (ms : Nat) : Desk :=
  let limit := d.now + ms
  let fuel := Channel.all.foldl (fun n channel => n + d.ahead channel) (d.alarms.length * (ms + 1))
  { run limit fuel d with now := limit }

/-! ## What runs -/

/-- The first instant at which a monitor checks, if there is an interval to wait for and the clock
can show the instant. -/
def firstCheck? (d : Desk) : Option Nat :=
  let seconds := d.aggregator.settings.heartbeat.intervalSecs.toNat
  if 0 < seconds ∧ d.now / 1000 + seconds < Link.Backoff.clockLimit then some (d.now + d.interval)
  else none

/-- Starts a monitor and gives its number. -/
def monitor (d : Desk) : Desk × Nat :=
  let number := d.monitors
  let d := { d with monitors := number + 1 }
  match d.firstCheck? with
  | none => (d, number)
  | some due =>
    (if d.aggregator.isClosed then d else d.sleep due (.monitor number), number)

/-- Whether a monitor has ended. -/
def hasEnded (d : Desk) (number : Nat) : Bool := !d.alarms.awaits (.monitor number)

/-- Starts the link of a channel. -/
def startLink (d : Desk) (channel : Channel) (attempts : List Link.Attempt) : Desk :=
  let link := Link.Connection.start d.aggregator.settings channel d.now attempts
  { d with links := d.links.set channel (some link) }.sleepLink channel

/-- Whether the links were started. -/
def isStarted (d : Desk) : Bool := Channel.all.any fun c => (d.links.get c).isSome

/-- Starts both links and a monitor, unless that was done before or the aggregator is closed. -/
def start (d : Desk) (attempts : ByChannel (List Link.Attempt)) : Desk :=
  if d.aggregator.isClosed || d.isStarted then d
  else
    let begun := Channel.all.foldl (fun d c => d.startLink c (attempts.get c)) d
    (begun.advance 0).monitor.1

/-- Ends the link of a channel. -/
def closeLink (d : Desk) (channel : Channel) : Desk :=
  match d.links.get channel with
  | none => d
  | some link =>
    match link.close d.aggregator.board with
    | (link, board) => { d.onBoard fun _ => board with links := d.links.set channel (some link) }

/-- Closes the aggregator and ends everything that runs. -/
def close (d : Desk) : Desk :=
  if d.aggregator.isClosed then d
  else Channel.all.foldl closeLink { d with aggregator := d.aggregator.close, alarms := [] }

/-! ## Requests on the bus -/

/-- Takes requests off a topic. -/
def serve (d : Desk) (topic : String) : Except Fault Desk :=
  (d.exchange.subscribe topic ()).map fun exchange => { d with exchange }

/-- Publishes a message on the bus. -/
def publish (d : Desk) (message : Bus.Message) : Desk × Except Fault Unit :=
  match Bus.Exchange.publish (fun _ message a => a.react message) Bus.Exchange.maxHops
      (d.aggregator, d.exchange) message with
  | ((aggregator, exchange), result) => ({ d with aggregator, exchange }, result)

end MarketStream.Desk
