import MarketStream.Cache
import MarketStream.InfoLog
import MarketStream.Link.Line
import MarketStream.Liveness
import MarketStream.Registry
import MarketStream.Settings

/-!
# The aggregator

The aggregator listens to both channels of a feed. It merges what they bring into its cache and
passes it on, repeats the subscriptions whenever the public channel comes up, keeps errors in its
log and probes channels that have gone silent.

* `Aggregator` — its state;
* `Aggregator.onConnect`, `onFrame`, `onError` — what the channels report;
* `Aggregator.subscribe`, `unsubscribe`, `add` — what callers ask for;
* `Aggregator.probe` — the heartbeats that are due.
-/

namespace MarketStream

/-- The state of an aggregator. -/
structure Aggregator where
  /-- Its settings. -/
  settings : Settings
  /-- The subscriptions. -/
  registry : Registry
  /-- The lines there have been. -/
  board : Link.Switchboard
  /-- The line to write to, of each channel that has one. -/
  writers : ByChannel (Option Nat)
  /-- The notes and errors. -/
  info : InfoLog
  /-- The merged payloads. -/
  cache : Cache
  /-- The signs of life. -/
  liveness : Liveness
  /-- It was closed. -/
  isClosed : Bool

namespace Aggregator

/-- An aggregator that has seen nothing, with a supply of ids for its subscriptions. -/
def fresh (settings : Settings) (ids : Nat → String) : Aggregator :=
  ⟨settings, .empty ids, .empty, .both none, .empty, .empty, .silent, false⟩

/-! ## Writing -/

/-- Whether the line of a channel is there and open. -/
def isConnected (a : Aggregator) (channel : Channel) : Bool :=
  (a.writers.get channel).any a.board.isOpen

/-- Writes a command to a channel. -/
def write (a : Aggregator) (channel : Channel) (c : Command) : Except Fault Aggregator :=
  match a.writers.get channel with
  | none => .error (.notConnected channel)
  | some n => (a.board.write channel n c).map fun board => { a with board }

/-! ## What the channels report -/

/-- A channel came up with a line. On the public channel the subscriptions are repeated. -/
def onConnect (a : Aggregator) (now : Moment) (channel : Channel) (n : Nat) : Aggregator :=
  let a := { a with
    writers := a.writers.set channel (some n)
    liveness := a.liveness.touch channel now }
  match channel with
  | .private => a
  | .public => { a with board := a.board.writeAll .public n a.registry.commands }

/-- What is passed on of a frame: a frame, if anything, and the cache after it. -/
def digest (cache : Cache) (channel : Channel) (f : Frame) : Cache × Option Frame :=
  let merged (result : Except Fault (Cache × Frame)) : Cache × Option Frame :=
    match result with
    | .ok (cache, out) => (cache, some out)
    | .error _ => (cache, some f)
  let stored (result : Except Fault (Cache × Frame)) : Cache × Option Frame :=
    ((merged result).1, some f)
  match f.kind with
  | .heartbeat | .other _ => (cache, none)
  | .order => merged (cache.mergeOrder f)
  | .price | .depth | .indicator => merged (cache.merge f)
  | .trade =>
    match channel with
    | .private => (cache, some f)
    | .public => stored (cache.merge f)
  | .news | .tradingStatus => stored (cache.merge f)

/-- A channel brought a frame. -/
def onFrame (a : Aggregator) (now : Moment) (channel : Channel) (f : Frame) :
    Aggregator × Option Frame :=
  match digest a.cache channel f with
  | (cache, out) => ({ a with cache, liveness := a.liveness.touch channel now }, out)

/-- The key of an error: when it happened, and on which channel. -/
def errorKey (now : Moment) (channel : Channel) : String := now.stamp ++ " " ++ channel.name

/-- A channel failed. -/
def onError (a : Aggregator) (now : Moment) (channel : Channel) (fault : Fault) : Aggregator :=
  { a with
    writers := a.writers.set channel none
    info := a.info.record a.settings.maxInfoEntries.toNat (errorKey now channel) fault.message }

/-! ## What callers ask for -/

/-- The answer to a subscription: its id, and what is known of the stream. -/
structure Welcome where
  /-- The id of the subscription. -/
  id : String
  /-- The snapshot of the stream. -/
  last : Option Snapshot

/-- Registers a bare command. -/
def add (a : Aggregator) (c : Command) : Aggregator × String :=
  match a.registry.add c with
  | (registry, id) => ({ a with registry }, id)

/-- Subscribes to a stream. The subscription stays registered even if the command cannot be sent
now. -/
def subscribe (a : Aggregator) (key : StreamKey) : Aggregator × Except Fault Welcome :=
  let key := key.normalized
  match key.command "subscribe" with
  | .error e => (a, .error e)
  | .ok c =>
    match a.registry.enrol key c with
    | (registry, id) =>
      let a := { a with registry }
      match a.write .public c with
      | .error e => (a, .error e)
      | .ok a => (a, .ok ⟨id, a.cache.get? key⟩)

/-- Drops a subscription, and tells the feed if the public channel is up. -/
def unsubscribe (a : Aggregator) (id : String) : Aggregator × Except Fault Unit :=
  match a.registry.remove? id with
  | none => (a, .error (.notFound ("subscription " ++ id)))
  | some (registry, s) =>
    let a := { a with registry }
    if a.isConnected .public then
      match a.write .public (s.command.withName "unsubscribe") with
      | .ok a => (a, .ok ())
      | .error e => (a, .error e)
    else (a, .ok ())

/-- The snapshot of a stream. -/
def last (a : Aggregator) (key : StreamKey) : Except Fault Snapshot :=
  match a.cache.get? key with
  | some s => .ok s
  | none => .error (.notFound ("item " ++ key.stateKey.display))

/-- Sets an entry of the log. -/
def note (a : Aggregator) (key : String) (value : Json.Value) : Aggregator :=
  { a with info := a.info.set key value }

/-! ## Heartbeats -/

/-- The silence after which a channel is probed, in milliseconds. -/
def staleAfter (a : Aggregator) : Nat := a.settings.heartbeat.staleAfterSecs.toNat * 1000

/-- Probes a channel if it is silent: the state after it, and whether a heartbeat was sent. -/
def probeChannel (a : Aggregator) (now : Nat) (channel : Channel) : Aggregator × Bool :=
  if a.liveness.isStale channel now a.staleAfter then
    match a.write channel .heartbeat with
    | .ok a => (a, true)
    | .error _ => (a, false)
  else (a, false)

/-- Probes every silent channel and gives those that a heartbeat was sent to. -/
def probe (a : Aggregator) (now : Nat) : Aggregator × List Channel :=
  Channel.all.foldl (fun (a, probed) c =>
    match a.probeChannel now c with
    | (a, true) => (a, probed ++ [c])
    | (a, false) => (a, probed)) (a, [])

/-- Stops writing to the channels for good. -/
def close (a : Aggregator) : Aggregator :=
  if a.isClosed then a else { a with isClosed := true, writers := .both none }

end MarketStream.Aggregator
