import MarketStream.Bus.Exchange
import MarketStream.Reorder.Sequencer

/-!
# Consumers

What an aggregator passes on is published on a topic of the bus. A consumer takes the frames off
that topic, either as they come or back in the order of their numbers.

* `Consumer` — a consumer with the frames that it holds back;
* `Consumer.handle` — one message; `Consumer.flush` — everything held back;
* `Consumer.react` — a consumer as a subscriber on the exchange.
-/

namespace MarketStream

/-- Someone who takes frames off a topic. -/
inductive Consumer where
  /-- Takes frames as they come. -/
  | direct
  /-- Takes frames in the order of their numbers. -/
  | ordered (waiting : Reorder.Sequencer)

namespace Consumer

/-- A consumer in order that has taken nothing. -/
def inOrder : Consumer := .ordered .empty

/-- Takes a frame and gives those that are delivered. -/
def take (c : Consumer) (f : Frame) : Consumer × List Frame :=
  match c with
  | .direct => (.direct, [f])
  | .ordered waiting =>
    match waiting.push f with
    | (waiting, delivered) => (.ordered waiting, delivered)

/-- Takes the bytes of a message. Bytes that are no frame are refused and change nothing. -/
def handle (c : Consumer) (data : Bytes) : Except Fault (Consumer × List Frame) :=
  (Frame.parse data).map c.take

/-- Delivers everything held back. -/
def flush : Consumer → Consumer × List Frame
  | .direct => (.direct, [])
  | .ordered waiting =>
    match waiting.flush with
    | (waiting, delivered) => (.ordered waiting, delivered)

/-- How many frames are held back. -/
def pending : Consumer → Nat
  | .direct => 0
  | .ordered waiting => waiting.pending

/-- A consumer as a subscriber, which keeps the frames delivered so far. -/
def react (_ : Unit) (message : Bus.Message) (taken : Consumer × List Frame) :
    (Consumer × List Frame) × Bus.Reaction :=
  match taken.1.handle message.2 with
  | .ok (c, delivered) => ((c, taken.2 ++ delivered), .ok [])
  | .error e => (taken, .error e)

end MarketStream.Consumer
