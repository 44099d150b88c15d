import MarketStream.Frame
import MarketStream.Json.Sparse

/-!
# Quotes

A quote is one update of an instrument's prices: the best offers, the last trade, the session's
extremes and the volume traded so far. Quotes are ordered by tick time and then by that volume.

* `Quote` — a quote; `Quote.read?` and `Quote.write` — its sparse record;
* `Quote.isBefore` — strictly earlier;
* `Quote.same` — equality that compares measurements as numbers.
-/

namespace MarketStream

/-- One update of an instrument's prices. -/
structure Quote where
  /-- The instrument. -/
  identifier : String := ""
  /-- The number of its market. -/
  market : Int64 := 0
  /-- The best offer to sell. -/
  ask : Binary64 := .zero
  /-- The volume offered at it. -/
  askVolume : Binary64 := .zero
  /-- The best offer to buy. -/
  bid : Binary64 := .zero
  /-- The volume asked for at it. -/
  bidVolume : Binary64 := .zero
  /-- The first price of the session. -/
  opening : Binary64 := .zero
  /-- The highest price of the session. -/
  high : Binary64 := .zero
  /-- The lowest price of the session. -/
  low : Binary64 := .zero
  /-- The price of the last trade. -/
  last : Binary64 := .zero
  /-- The volume of the last trade. -/
  lastVolume : Int64 := 0
  /-- The last price of the session before. -/
  close : Binary64 := .zero
  /-- The price at which an auction would clear. -/
  equilibrium : Binary64 := .zero
  /-- The volume an auction would leave over. -/
  imbalance : Int64 := 0
  /-- The volume an auction would match. -/
  paired : Int64 := 0
  /-- The value traded so far. -/
  turnover : Binary64 := .zero
  /-- The volume traded so far. -/
  turnoverVolume : Int64 := 0
  /-- The mean price weighted by volume. -/
  vwap : Binary64 := .zero
  /-- When the quote was made, in milliseconds. -/
  tickTime : Int64 := 0
  /-- When the last trade was made, in milliseconds. -/
  tradeTime : Int64 := 0
deriving DecidableEq, Inhabited

namespace Quote

/-- What quotes are ordered by: tick time, then the volume traded so far. -/
def sortKey (q : Quote) : Int × Int := (q.tickTime.toInt, q.turnoverVolume.toInt)

/-- Strictly earlier than another quote. -/
def isBefore (q r : Quote) : Bool :=
  decide (q.sortKey.1 < r.sortKey.1 ∨ q.sortKey.1 = r.sortKey.1 ∧ q.sortKey.2 < r.sortKey.2)

/-- The names of the fields of a quote's record. -/
def names : List String :=
  ["i", "m", "ask", "ask_volume", "bid", "bid_volume", "open", "high", "low", "last",
   "last_volume", "close", "ep", "imbalance", "paired", "turnover", "turnover_volume", "vwap",
   "tick_timestamp", "trade_timestamp"]

/-- Reads a quote from a delimited text. -/
def read? (input : Json.Input) : Option Quote := do
  let r ← Json.fields? names input
  let identifier ← r.textOr "i"
  let market ← r.wholeOr "m"
  let ask ← r.measureOr "ask"
  let askVolume ← r.measureOr "ask_volume"
  let bid ← r.measureOr "bid"
  let bidVolume ← r.measureOr "bid_volume"
  let opening ← r.measureOr "open"
  let high ← r.measureOr "high"
  let low ← r.measureOr "low"
  let last ← r.measureOr "last"
  let lastVolume ← r.wholeOr "last_volume"
  let close ← r.measureOr "close"
  let equilibrium ← r.measureOr "ep"
  let imbalance ← r.wholeOr "imbalance"
  let paired ← r.wholeOr "paired"
  let turnover ← r.measureOr "turnover"
  let turnoverVolume ← r.wholeOr "turnover_volume"
  let vwap ← r.measureOr "vwap"
  let tickTime ← r.wholeOr "tick_timestamp"
  let tradeTime ← r.wholeOr "trade_timestamp"
  return { identifier, market, ask, askVolume, bid, bidVolume, opening, high, low, last,
           lastVolume, close, equilibrium, imbalance, paired, turnover, turnoverVolume, vwap,
           tickTime, tradeTime }

/-- Reads a quote. -/
def decode? (bytes : Bytes) : Option Quote := (Json.document? bytes).bind read?

/-- The quote in the payload of a frame. -/
def ofFrame (f : Frame) : Except Fault Quote := readOr (f.payload?.bind read?)

/-- The text of a quote. -/
def write (q : Quote) : List Char :=
  Json.record (
    Json.sparseText "i" q.identifier ++ Json.sparseWhole "m" q.market
    ++ Json.sparseMeasure "ask" q.ask ++ Json.sparseMeasure "ask_volume" q.askVolume
    ++ Json.sparseMeasure "bid" q.bid ++ Json.sparseMeasure "bid_volume" q.bidVolume
    ++ Json.sparseMeasure "open" q.opening ++ Json.sparseMeasure "high" q.high
    ++ Json.sparseMeasure "low" q.low ++ Json.sparseMeasure "last" q.last
    ++ Json.sparseWhole "last_volume" q.lastVolume ++ Json.sparseMeasure "close" q.close
    ++ Json.sparseMeasure "ep" q.equilibrium ++ Json.sparseWhole "imbalance" q.imbalance
    ++ Json.sparseWhole "paired" q.paired ++ Json.sparseMeasure "turnover" q.turnover
    ++ Json.sparseWhole "turnover_volume" q.turnoverVolume ++ Json.sparseMeasure "vwap" q.vwap
    ++ Json.sparseWhole "tick_timestamp" q.tickTime
    ++ Json.sparseWhole "trade_timestamp" q.tradeTime)

/-- The text of a quote. -/
def text (q : Quote) : String := String.ofList q.write

/-- The quote with every measured zero made positive. -/
def unsignedZeros (q : Quote) : Quote :=
  { q with
    ask := q.ask.unsignedZero, askVolume := q.askVolume.unsignedZero, bid := q.bid.unsignedZero,
    bidVolume := q.bidVolume.unsignedZero, opening := q.opening.unsignedZero,
    high := q.high.unsignedZero, low := q.low.unsignedZero, last := q.last.unsignedZero,
    close := q.close.unsignedZero, equilibrium := q.equilibrium.unsignedZero,
    turnover := q.turnover.unsignedZero, vwap := q.vwap.unsignedZero }

/-- Equality of quotes, measurements being compared as numbers. -/
def same (q r : Quote) : Bool := q.unsignedZeros == r.unsignedZeros

end MarketStream.Quote
