import MarketStream.Json.Sparse
import MarketStream.Reorder.Sequencer

/-!
# Putting frames in order of time

Frames without a sequence number are put in order by the time of the event they report. A frame is
held until a frame newer by more than a fixed delay has arrived; then whatever is older than the
window is released, by time and then by traded volume. A frame older than the window on arrival is
too late to be sorted and is delivered at once. Sequenced frames go through a sequencer of their
own.

* `EventTime` — what a payload says of its event;
* `DelayWindow` — the frames held; `DelayWindow.push`, `DelayWindow.flush`.
-/

namespace MarketStream.Reorder

/-- What a payload says of its event; zero stands for nothing. -/
structure EventTime where
  /-- When the quote was made. -/
  tick : Int64
  /-- When the trade was made. -/
  trade : Int64
  /-- The volume traded so far. -/
  volume : Int64

namespace EventTime

/-- A payload that says nothing. -/
def unknown : EventTime := ⟨0, 0, 0⟩

/-- Reads the event time from a delimited payload. -/
def read? (input : Json.Input) : Option EventTime := do
  let r ← Json.fields? ["tick_timestamp", "trade_timestamp", "turnover_volume"] input
  let tick ← r.wholeOr "tick_timestamp"
  let trade ← r.wholeOr "trade_timestamp"
  let volume ← r.wholeOr "turnover_volume"
  return ⟨tick, trade, volume⟩

/-- The event time of a frame. A payload that cannot be read says nothing. -/
def ofFrame (f : Frame) : EventTime := (f.payload?.bind read?).getD unknown

/-- The time of the event: that of the quote, else that of the trade, else `fallback`. -/
def time (e : EventTime) (fallback : Int) : Int :=
  if 0 < e.tick.toInt then e.tick.toInt
  else if 0 < e.trade.toInt then e.trade.toInt
  else fallback

end EventTime

/-- A frame held with the time it was given on arrival. -/
structure Timed where
  /-- The frame. -/
  frame : Frame
  /-- The time of its event. -/
  time : Int
  /-- The volume traded so far, which orders events of one time. -/
  volume : Int

/-- By time, then by volume. -/
def Timed.notAfter (a b : Timed) : Bool :=
  decide (a.time < b.time ∨ a.time = b.time ∧ a.volume ≤ b.volume)

/-- Frames held for a window of time. -/
structure DelayWindow where
  /-- The sequenced frames. -/
  sequencer : Sequencer
  /-- The length of the window. -/
  delay : Int
  /-- The frames held outside any sequence. -/
  waiting : List Timed
  /-- The newest time seen. -/
  highWater : Int

namespace DelayWindow

/-- A window that has seen nothing. -/
def empty (delay : Int) : DelayWindow := ⟨.empty, delay, [], 0⟩

/-- The oldest time inside the window. -/
def cutoff (w : DelayWindow) : Int := clamp (w.highWater - w.delay)

/-- Frames in order of time, those of one time and volume as they arrived. -/
def sorted (frames : List Timed) : List Timed := frames.mergeSort Timed.notAfter

/-- Moves the window up to a new time and releases what is older. -/
def advance (w : DelayWindow) (time : Int) : DelayWindow × List Frame :=
  let w := { w with highWater := time }
  let isOld := fun t : Timed => decide (t.time < w.cutoff)
  let frames := sorted w.waiting
  ({ w with waiting := frames.dropWhile isOld }, (frames.takeWhile isOld).map Timed.frame)

/-- Takes in a frame without sequence number and gives those that are delivered. -/
def pushTimed (w : DelayWindow) (f : Frame) : DelayWindow × List Frame :=
  let event := EventTime.ofFrame f
  let time := event.time w.highWater
  if time < w.cutoff then (w, [f])
  else
    let held := { w with waiting := w.waiting ++ [⟨f, time, event.volume.toInt⟩] }
    if w.highWater < time then held.advance time else (held, [])

/-- Takes in a frame and gives those that are delivered. -/
def push (w : DelayWindow) (f : Frame) : DelayWindow × List Frame :=
  if 0 < f.seq.toInt then
    match w.sequencer.push f with
    | (s, delivered) => ({ w with sequencer := s }, delivered)
  else w.pushTimed f

/-- Delivers everything held back, sequenced frames first. -/
def flush (w : DelayWindow) : DelayWindow × List Frame :=
  match w.sequencer.flush with
  | (s, delivered) =>
    ({ w with sequencer := s, waiting := [] }, delivered ++ (sorted w.waiting).map Timed.frame)

/-- How many frames are held back. -/
def pending (w : DelayWindow) : Nat := w.waiting.length + w.sequencer.pending

end MarketStream.Reorder.DelayWindow
