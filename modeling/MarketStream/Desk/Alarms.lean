import MarketStream.Channel

/-!
# Alarms

Whoever waits for an instant sets an alarm. Alarms go off in the order of their instants, and those
of one instant in the order in which they were set.

* `Alarm` — an instant with who is woken then; `Alarms` — all that are set, the next one first;
* `Alarms.set` — sets one more.
-/

namespace MarketStream.Desk

/-- Who waits to be woken. -/
inductive Sleeper where
  /-- The link of a channel. -/
  | link (channel : Channel)
  /-- The monitor of a number. -/
  | monitor (number : Nat)
deriving DecidableEq

/-- An instant, and who is woken then. -/
structure Alarm where
  /-- The instant in milliseconds. -/
  due : Nat
  /-- Who is woken. -/
  sleeper : Sleeper
deriving DecidableEq

/-- The alarms that are set, in the order in which they go off. -/
abbrev Alarms := List Alarm

namespace Alarms

/-- Sets an alarm, after those that are not later. -/
def set (a : Alarm) : Alarms → Alarms
  | [] => [a]
  | b :: rest => if b.due ≤ a.due then b :: set a rest else a :: b :: rest

/-- Whether someone has an alarm set. -/
def awaits (s : Sleeper) (alarms : Alarms) : Bool := alarms.any fun a => a.sleeper == s

/-- Whether the next alarm belongs to an instant. -/
def goesOnAt (now : Nat) (alarms : Alarms) : Bool := alarms.head?.any fun a => a.due == now

end MarketStream.Desk.Alarms
