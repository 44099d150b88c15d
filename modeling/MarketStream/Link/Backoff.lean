import MarketStream.Settings

/-!
# Waiting before dialling again

Failures are counted within a window of time. The first failure of a window waits the first delay
of the table, the next one the second, and so on; the last delay repeats. A failure after the end
of the window opens a new one.

* `Backoff` — the table and the present window; `Backoff.next?` — the delay after a failure.
-/

namespace MarketStream.Link

/-- The table of delays and the present window, in milliseconds. -/
structure Backoff where
  /-- The length of a window in seconds. -/
  windowSecs : Nat
  /-- The delays. -/
  delays : List Nat
  /-- The end of the present window. -/
  windowEnd : Option Nat
  /-- How many failures the present window has seen. -/
  count : Nat
deriving DecidableEq

namespace Backoff

/-- The first instant, in seconds, that a clock cannot show. -/
def clockLimit : Nat := 0x8000000000000000

/-- Before the first failure. -/
def ofSettings (s : Settings.Reconnect) : Backoff :=
  ⟨s.windowSecs.toNat, s.delaysMs.map UInt64.toNat, none, 0⟩

/-- Whether a failure at an instant falls into the present window. -/
def isOpenAt (b : Backoff) (now : Nat) : Bool := b.windowEnd.any fun e => decide (now ≤ e)

/-- The table entry for the next failure of the present window, zero if the table is empty. -/
def delay (b : Backoff) : Nat := (b.delays[min b.count (b.delays.length - 1)]?).getD 0

/-- Counts a failure and gives its delay. -/
def tally (b : Backoff) : Nat × Backoff := (b.delay, { b with count := b.count + 1 })

/-- The delay after a failure at an instant, unless the end of a new window is beyond what the
clock can show. -/
def next? (b : Backoff) (now : Nat) : Option (Nat × Backoff) :=
  if b.isOpenAt now then some b.tally
  else if now / 1000 + b.windowSecs < clockLimit then
    some { b with count := 0, windowEnd := some (now + b.windowSecs * 1000) }.tally
  else none

end MarketStream.Link.Backoff
