import MarketStream.StreamKey

/-!
# The registry of subscriptions

What the feed is to be asked for whenever the public channel comes up. A subscription belongs to a
stream key, or is a bare command; each gets the next one of the ids, of which there is an endless
supply. There is one subscription to a stream, however often it is asked for.

* `Subscription` — a subscription; `Registry` — all of them, oldest first;
* `Registry.add`, `Registry.enrol`, `Registry.remove?` — what can be done with it.
-/

namespace MarketStream

/-- A command that is sent whenever the public channel comes up. -/
structure Subscription where
  /-- Its id. -/
  id : String
  /-- The stream it is for, unless it is a bare command. -/
  key : Option StreamKey
  /-- What is sent. -/
  command : Command
deriving DecidableEq

/-- The text of a subscription. -/
def Subscription.write (s : Subscription) : List Char :=
  Json.record ([("id", Json.quote s.id)]
    ++ (s.key.map fun k => ("key", k.write)).toList ++ [("cmd", s.command.write)])

/-- All subscriptions. -/
structure Registry where
  /-- The ids in the order in which they are given out, from the first one on. -/
  ids : Nat → String
  /-- The subscriptions, oldest first. -/
  subscriptions : List Subscription
  /-- How many ids have been given out. -/
  issued : Nat

namespace Registry

/-- No subscriptions. -/
def empty (ids : Nat → String) : Registry := ⟨ids, [], 0⟩

/-- Adds a subscription and gives its id. -/
def register (r : Registry) (key : Option StreamKey) (command : Command) : Registry × String :=
  let issued := r.issued + 1
  let id := r.ids issued
  ({ r with subscriptions := r.subscriptions ++ [⟨id, key, command⟩], issued }, id)

/-- Adds a bare command. -/
def add (r : Registry) (command : Command) : Registry × String := r.register none command

/-- The subscription to a stream. -/
def find? (r : Registry) (key : StreamKey) : Option Subscription :=
  r.subscriptions.find? fun s => s.key == some key

/-- Sees to it that a stream is subscribed to, and gives the id of its subscription. -/
def enrol (r : Registry) (key : StreamKey) (command : Command) : Registry × String :=
  match r.find? key with
  | some s => (r, s.id)
  | none => r.register (some key) command

/-- Removes the subscription with an id, if there is one, and gives it. -/
def remove? (r : Registry) (id : String) : Option (Registry × Subscription) :=
  (r.subscriptions.find? fun s => s.id == id).map fun s =>
    ({ r with subscriptions := r.subscriptions.eraseP fun s => s.id == id }, s)

/-- What is sent whenever the public channel comes up. -/
def commands (r : Registry) : List Command := r.subscriptions.map Subscription.command

end MarketStream.Registry
