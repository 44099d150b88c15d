import MarketStream.Aggregator
import MarketStream.Json.Writer

/-!
# Status reports

What an aggregator tells of itself: its notes and errors, its subscriptions, the signs of life of
its channels and how much its cache holds. As a value, every object has its keys in order.
-/

namespace MarketStream

/-- The value of a command. -/
def Command.value (c : Command) : Json.Value :=
  .ofList [("cmd", .string c.name), ("args", c.args)]

/-- The value of a stream key. -/
def StreamKey.value (k : StreamKey) : Json.Value :=
  .ofList ([("type", .string k.kindName), ("id", .string k.identifier),
      ("market", .string k.market), ("delay", .bool k.delay)]
    ++ (k.source.map fun n => ("source", Json.Value.ofInt64 n)).toList)

/-- The value of a subscription. -/
def Subscription.value (s : Subscription) : Json.Value :=
  .ofList ([("id", .string s.id), ("cmd", s.command.value)]
    ++ (s.key.map fun k => ("key", k.value)).toList)

/-- The value of a count. -/
def Json.Value.ofNat (n : Nat) : Json.Value :=
  ((Json.Integer.ofInt? n).map Json.Value.integer).getD .null

/-- The value of a summary. -/
def Cache.Summary.value (s : Cache.Summary) : Json.Value :=
  .ofList [("snapshots", .ofList (s.streams.map fun (k, n) => (k, .ofNat n))),
    ("orders", .ofNat s.orders)]

/-- The value of the signs of life of a channel. -/
def Pulse.value (p : Pulse) : Json.Value :=
  .ofList [("last_seen", .string p.last.stamp), ("count", .ofNat p.count)]

namespace Aggregator

/-- What an aggregator tells of itself. -/
def status (a : Aggregator) : Json.Value :=
  .ofList [("info", .object a.info.entries),
    ("subscriptions", .array (a.registry.subscriptions.map Subscription.value)),
    ("heartbeats", .ofList (a.liveness.heard.map fun (c, p) => (c.name, p.value))),
    ("state", a.cache.summary.value)]

end MarketStream.Aggregator
