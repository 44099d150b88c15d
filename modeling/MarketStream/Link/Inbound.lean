import MarketStream.Frame

/-!
# Frames from a stream of bytes

The peer sends one frame to a line. Lines are cut from the bytes as they come in, however they are
cut into reads; a line of blanks is passed over, and the first line that is no frame ends the
stream. A last line without its end counts as a line if the peer ends the stream, and is lost if
the stream breaks.

* `Inbound` — the bytes of a line that has not ended;
* `Inbound.feed` — what a read brings; `Inbound.finish` — what the end of the stream brings.
-/

namespace MarketStream.Link

/-- The part of a line that has come in. -/
structure Inbound where
  /-- The bytes since the last end of a line. -/
  partialLine : Bytes
deriving DecidableEq

/-- The end of a line. -/
def newline : UInt8 := 10

/-- A byte that a blank line may hold: space, tab, line feed, form feed, carriage return. -/
def isBlankByte (b : UInt8) : Bool := b == 32 || b == 9 || b == 10 || b == 12 || b == 13

/-- What a line means: nothing, a frame, or that it is none. -/
inductive LineResult where
  /-- A blank line. -/
  | blank
  /-- A frame. -/
  | frame (f : Frame)
  /-- No frame. -/
  | bad
deriving DecidableEq

/-- Reads a line. -/
def LineResult.ofLine (line : Bytes) : LineResult :=
  if line.all isBlankByte then .blank
  else
    match Frame.parse line with
    | .ok f => .frame f
    | .error _ => .bad

/-- Cuts bytes after each end of a line, onto the part of a line that came before: the lines, and
the part of a line that is left. Both the part and the lines so far are kept last first. -/
def cutOnto (part : Bytes) (lines : List Bytes) : Bytes → List Bytes × Bytes
  | [] => (lines.reverse, part.reverse)
  | b :: rest =>
    if b = newline then cutOnto [] ((b :: part).reverse :: lines) rest
    else cutOnto (b :: part) lines rest

/-- The lines that bytes complete, and the part of a line that is left. -/
def cutLines (part bytes : Bytes) : List Bytes × Bytes := cutOnto part.reverse [] bytes

/-- The frames of lines up to the first that is none, and whether there is one. -/
def framesOf : List Bytes → List Frame × Bool
  | [] => ([], false)
  | line :: rest =>
    match LineResult.ofLine line with
    | .blank => framesOf rest
    | .frame f => match framesOf rest with
      | (fs, bad) => (f :: fs, bad)
    | .bad => ([], true)

namespace Inbound

/-- Nothing has come in. -/
def empty : Inbound := ⟨[]⟩

/-- The frames that a read completes, and whether a line after them is none. -/
def feed (i : Inbound) (bytes : Bytes) : Inbound × List Frame × Bool :=
  match cutLines i.partialLine bytes with
  | (lines, part) => (⟨part⟩, framesOf lines)

/-- The frame in the last line when the peer ends the stream, and whether that line is none. -/
def finish (i : Inbound) : List Frame × Bool := framesOf [i.partialLine]

end MarketStream.Link.Inbound
