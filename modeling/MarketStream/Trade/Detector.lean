import MarketStream.Decimal.Fixed
import MarketStream.Quote
import MarketStream.Trade

/-!
# Detecting trades

A detector recovers trades from quotes that report the volume traded so far: a quote made at the
time of a trade, whose volume exceeds that of the instrument's quote before it, stands for a trade
of the difference. Trades that the venue reports itself are passed on as they are.

* `Detector` — the last quote of each instrument;
* `Detector.onQuote`, `Detector.onFrame` — one quote, one frame.
-/

namespace MarketStream.Trade

/-- An instrument on a market. -/
abbrev Instrument := String × Int64

/-- The instrument a quote is about. -/
def Instrument.ofQuote (q : Quote) : Instrument := (q.identifier, q.market)

/-- The last quote of each instrument. -/
structure Detector where
  /-- The instruments, each once, with their last quote. -/
  last : List (Instrument × Quote)

namespace Detector

/-- A detector that has seen nothing. -/
def empty : Detector := ⟨[]⟩

/-- The last quote of an instrument. -/
def last? (d : Detector) (i : Instrument) : Option Quote := d.last.lookup i

/-- Replaces the quote of an instrument in a list, or adds it at the end. -/
def remember (i : Instrument) (q : Quote) : List (Instrument × Quote) → List (Instrument × Quote)
  | [] => [(i, q)]
  | (j, r) :: rest => if i = j then (i, q) :: rest else (j, r) :: remember i q rest

/-- The volume that a quote shows to have been traded since the one before it: positive, and small
enough to be counted. -/
def traded? (before q : Quote) : Option Int64 :=
  let volume := q.turnoverVolume.toInt - before.turnoverVolume.toInt
  if q.tradeTime = q.tickTime ∧ 0 < volume ∧ volume ≤ Int64.maxValue.toInt then
    some (.ofInt volume)
  else none

/-- The id of an inferred trade: the best offers and the mean price with six places each, and the
volume traded so far. -/
def inferredId (q : Quote) : String :=
  String.ofList (q.bid.fixed 6 ++ [' ', '-', ' '] ++ q.ask.fixed 6 ++ [':', ' '] ++ q.vwap.fixed 6
    ++ [' ', '-', '-', ' '] ++ Text.integer q.turnoverVolume.toInt)

/-- The trade that a quote stands for. -/
def infer (q : Quote) (volume : Int64) : Trade :=
  { identifier := q.identifier, market := q.market, time := q.tradeTime, type := inferredType,
    id := inferredId q, price := q.last, volume }

/-- Takes in a quote and gives the trade it stands for, if any. -/
def onQuote (d : Detector) (q : Quote) : Detector × List Trade :=
  let i := Instrument.ofQuote q
  let volume? := (d.last? i).bind fun before => traded? before q
  (⟨remember i q d.last⟩, (volume?.map (infer q)).toList)

/-- Takes in a frame and gives the trades it stands for. A frame that is neither a quote nor a
trade stands for none; one whose payload cannot be read changes nothing. -/
def onFrame (d : Detector) (f : Frame) : Except Fault (Detector × List Trade) :=
  match f.kind with
  | .price => (Quote.ofFrame f).map d.onQuote
  | .trade => (Trade.ofFrame f).map fun t => (d, [t])
  | _ => .ok (d, [])

/-- How many instruments have a quote. -/
def tracked (d : Detector) : Nat := d.last.length

end MarketStream.Trade.Detector
