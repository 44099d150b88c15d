import MarketStream.Channel

/-!
# Liveness

When each channel last showed a sign of life. A channel that has been silent for longer than a
limit is stale, and so is one that was never heard of.

* `Moment` — an instant with the time of day it shows to people;
* `Liveness` — the signs of life; `Liveness.touch` — one more; `Liveness.isStale`.
-/

namespace MarketStream

/-- An instant. -/
structure Moment where
  /-- Milliseconds on the clock that waits are measured by. -/
  ms : Nat
  /-- The date and time shown to people. -/
  stamp : String
deriving DecidableEq

/-- The signs of life of one channel. -/
structure Pulse where
  /-- The last one. -/
  last : Moment
  /-- How many there have been. -/
  count : Nat
deriving DecidableEq

/-- The signs of life of both channels, of those that were heard of. -/
structure Liveness where
  /-- By channel. -/
  pulses : ByChannel (Option Pulse)
deriving DecidableEq

namespace Liveness

/-- Nothing was heard of. -/
def silent : Liveness := ⟨.both none⟩

/-- A channel shows a sign of life. -/
def touch (l : Liveness) (channel : Channel) (now : Moment) : Liveness :=
  let count := ((l.pulses.get channel).map Pulse.count).getD 0
  ⟨l.pulses.set channel (some ⟨now, count + 1⟩)⟩

/-- Whether a channel has been silent for longer than a limit, both in milliseconds. -/
def isStale (l : Liveness) (channel : Channel) (now limit : Nat) : Bool :=
  (l.pulses.get channel).all fun p => decide (limit < now - p.last.ms)

/-- The channels that were heard of. -/
def heard (l : Liveness) : List (Channel × Pulse) :=
  Channel.all.filterMap fun c => (l.pulses.get c).map fun p => (c, p)

end MarketStream.Liveness
