import MarketStream.Fault

/-!
# The mailroom

A bus inside one process. Every subscription has a queue and a worker of its own: publishing only
queues, and a worker hands the messages of its queue to the handler one after another. A handler
that fails has still had its message.

* `Mailroom` — the bus; `Mailroom.subscribe`, `Mailroom.publish`, `Mailroom.close`;
* `Mailroom.work` — one step of one worker; `Mailroom.settle` — until every queue is empty.
-/

namespace MarketStream.Bus

/-- One subscription. -/
structure Subscription where
  /-- The topic it is for. -/
  topic : String
  /-- What its handler makes of a message. -/
  handler : Bytes → Except Fault Unit
  /-- The messages its handler has had, oldest first. -/
  handled : List Bytes
  /-- The messages queued for it, oldest first. -/
  queued : List Bytes
  /-- The failures of its handler, oldest first. -/
  failures : List Fault

namespace Subscription

/-- A subscription that has had nothing. -/
def fresh (topic : String) (handler : Bytes → Except Fault Unit) : Subscription :=
  ⟨topic, handler, [], [], []⟩

/-- Queues a message published on a topic, if that is the subscription's. -/
def offer (topic : String) (data : Bytes) (s : Subscription) : Subscription :=
  if s.topic = topic then { s with queued := s.queued ++ [data] } else s

/-- Hands the oldest queued message to the handler. -/
def work (s : Subscription) : Subscription :=
  match s.queued with
  | [] => s
  | data :: rest =>
    let failures := match s.handler data with
      | .ok () => s.failures
      | .error e => s.failures ++ [e]
    { s with handled := s.handled ++ [data], queued := rest, failures }

/-- Works until the queue is empty. -/
def settle (s : Subscription) : Subscription := Nat.repeat work s.queued.length s

end Subscription

/-- The bus. -/
structure Mailroom where
  /-- Whether messages and subscriptions are still taken. -/
  isOpen : Bool
  /-- The subscriptions, oldest first. -/
  subscriptions : List Subscription

namespace Mailroom

/-- An open bus without subscriptions. -/
def empty : Mailroom := ⟨true, []⟩

/-- Adds a subscription. -/
def subscribe (m : Mailroom) (topic : String) (handler : Bytes → Except Fault Unit) :
    Except Fault Mailroom :=
  if m.isOpen then
    .ok { m with subscriptions := m.subscriptions ++ [.fresh topic handler] }
  else .error .closed

/-- Queues a message for every subscription to its topic. -/
def publish (m : Mailroom) (topic : String) (data : Bytes) : Except Fault Mailroom :=
  if m.isOpen then
    .ok { m with subscriptions := m.subscriptions.map (Subscription.offer topic data) }
  else .error .closed

/-- Takes nothing more; what is queued is still handed out. -/
def close (m : Mailroom) : Mailroom := { m with isOpen := false }

/-- One step of the worker of the subscription at a place. -/
def work (m : Mailroom) (i : Nat) : Mailroom :=
  { m with subscriptions := m.subscriptions.modify i Subscription.work }

/-- Lets every worker empty its queue. -/
def settle (m : Mailroom) : Mailroom :=
  { m with subscriptions := m.subscriptions.map Subscription.settle }

/-- How many subscriptions to a topic are served. -/
def count (m : Mailroom) (topic : String) : Nat :=
  if m.isOpen then (m.subscriptions.filter fun s => s.topic == topic).length else 0

end MarketStream.Bus.Mailroom
