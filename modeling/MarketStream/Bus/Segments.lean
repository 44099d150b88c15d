import MarketStream.Bus.Envelope

/-!
# Segments

A reply too large for one message is split into numbered segments and put together again on the
other side, whatever the order in which the segments arrive and however often.

* `split` — the segments of a payload;
* `Reassembly` — the segments of one reply that have arrived; `Reassembly.feed` — one more.
-/

namespace MarketStream.Bus

/-- How many bytes a segment holds unless said otherwise. -/
def defaultSegmentSize : Nat := 500000

/-- Cuts bytes into pieces of `size` bytes, the last of which may be shorter; `fuel` bounds the
number of pieces. -/
def pieces (size : Nat) : (fuel : Nat) → Bytes → List Bytes
  | 0, _ => []
  | fuel + 1, bytes =>
    if bytes = [] then [] else bytes.take size :: pieces size fuel (bytes.drop size)

/-- The payloads of the segments of a reply; an empty payload still has one. A size of zero counts
as one. -/
def chunks (payload : Bytes) (size : Nat) : List Bytes :=
  if payload = [] then [[]] else pieces (max size 1) payload.length payload

/-- The segments of the reply to a request. -/
def split (id : Int64) (payload : Bytes) (size : Nat) : List Reply :=
  let parts := chunks payload size
  (parts.zipIdx 1).map fun (part, seq) => ⟨id, .ofNat seq, .ofNat parts.length, part, ""⟩

/-- The segments of one reply that have arrived. -/
structure Reassembly where
  /-- The payloads by segment number, in increasing order, each number once. -/
  parts : List (Int × Bytes)
  /-- Whether someone still waits for the reply. -/
  awaited : Bool
deriving DecidableEq

namespace Reassembly

/-- A reply of which nothing has arrived. -/
def empty : Reassembly := ⟨[], true⟩

/-- Files a payload under its number unless the number is taken. -/
def file (seq : Int) (payload : Bytes) : List (Int × Bytes) → List (Int × Bytes)
  | [] => [(seq, payload)]
  | (n, p) :: rest =>
    if seq = n then (n, p) :: rest
    else if seq < n then (seq, payload) :: (n, p) :: rest
    else (n, p) :: file seq payload rest

/-- How many segments have arrived. -/
def received (r : Reassembly) : Nat := r.parts.length

/-- Hands a reply to the one who waits for it, if someone still does. -/
def complete (r : Reassembly) (reply : Reply) : Reassembly × Bool × Option Reply :=
  ({ r with awaited := false }, true, if r.awaited then some reply else none)

/-- Takes in a segment; says whether the reply is complete, and gives it to the one who waits. A
reply that is not split, or that reports a failure, is complete by itself; a segment whose number
is out of range is ignored. -/
def feed (r : Reassembly) (msg : Reply) : Reassembly × Bool × Option Reply :=
  if msg.numSeq.toInt ≤ 1 ∨ msg.isError then r.complete msg
  else if msg.seq.toInt < 1 ∨ msg.numSeq.toInt < msg.seq.toInt then (r, false, none)
  else
    let parts := file msg.seq.toInt msg.payload r.parts
    if (parts.length : Int) = msg.numSeq.toInt then
      ({ r with parts := [] } : Reassembly).complete
        ⟨msg.id, 1, 1, parts.flatMap Prod.snd, ""⟩
    else ({ r with parts }, false, none)

/-- Nobody waits any more. -/
def abandon (r : Reassembly) : Reassembly := { r with awaited := false }

end MarketStream.Bus.Reassembly
