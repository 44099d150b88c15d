import MarketStream.Frame

/-!
# Putting frames back in sequence

Frames that went through a broker may arrive out of order. A sequencer delivers sequenced frames
in the order of their numbers and holds back those that are ahead of a gap. A number far from the
last one delivered, in either direction, starts the sequence anew. Frames outside any sequence pass
straight through.

* `Sequencer` — what is held back, and the last number delivered;
* `Sequencer.push` — one frame; `Sequencer.flush` — gives up waiting;
* `Sequencer.drain` — delivers what a delivery has unblocked.
-/

namespace MarketStream.Reorder

/-- The nearest signed 64-bit number. -/
def clamp (n : Int) : Int := max Int64.minValue.toInt (min n Int64.maxValue.toInt)

/-- A jump in the sequence larger than this starts it anew. -/
def resetGap : Int := 1000

/-- Frames held back until the gap before them closes. -/
structure Sequencer where
  /-- The frames held back, by number, those of one number as they arrived. -/
  waiting : List Frame
  /-- The last number delivered, zero before the first. -/
  lastSent : Int

namespace Sequencer

/-- A sequencer that has delivered nothing. -/
def empty : Sequencer := ⟨[], 0⟩

/-- A frame of this number is delivered at once: it is the next one, or starts the sequence anew. -/
def isNext (lastSent seq : Int) : Bool :=
  decide (seq = clamp (lastSent + 1) ∨ clamp (lastSent + resetGap) < seq
    ∨ seq < clamp (lastSent - resetGap))

/-- Puts a frame among those held back, after those of the same number. -/
def hold (f : Frame) : List Frame → List Frame
  | [] => [f]
  | g :: rest => if g.seq.toInt ≤ f.seq.toInt then g :: hold f rest else f :: g :: rest

/-- Delivers from the front of the frames held back as long as the next one is due, dropping those
that the sequence has passed. -/
def drain (lastSent : Int) : List Frame → Sequencer × List Frame
  | [] => (⟨[], lastSent⟩, [])
  | f :: rest =>
    if isNext lastSent f.seq.toInt then
      match drain f.seq.toInt rest with
      | (s, delivered) => (s, f :: delivered)
    else if f.seq.toInt ≤ lastSent then drain lastSent rest
    else (⟨f :: rest, lastSent⟩, [])

/-- Takes in a frame and gives those that are delivered. -/
def push (s : Sequencer) (f : Frame) : Sequencer × List Frame :=
  if f.seq.toInt ≤ 0 then (s, [f])
  else if isNext s.lastSent f.seq.toInt then
    match drain f.seq.toInt s.waiting with
    | (s, delivered) => (s, f :: delivered)
  else if f.seq.toInt ≤ s.lastSent then (s, [])
  else ({ s with waiting := hold f s.waiting }, [])

/-- Delivers everything held back, in order. -/
def flush (s : Sequencer) : Sequencer × List Frame :=
  (⟨[], (s.waiting.getLast?.map fun f => f.seq.toInt).getD s.lastSent⟩, s.waiting)

/-- How many frames are held back. -/
def pending (s : Sequencer) : Nat := s.waiting.length

end MarketStream.Reorder.Sequencer
