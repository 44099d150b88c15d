import MarketStream.Frame
import MarketStream.Json.Sparse

/-!
# Indicators

A value of an index or indicator at some time, and series of such values.

* `Indicator` — a value; `Indicator.read?` and `Indicator.write` — its sparse record;
* `Indicator.Series` — values in the order they were taken down, with `sort`, `latest?` and
  `groupBy`.
-/

namespace MarketStream

/-- One value of an indicator. -/
structure Indicator where
  /-- The indicator. -/
  identifier : String := ""
  /-- The name of its source. -/
  market : String := ""
  /-- When the value was computed, in milliseconds. -/
  tickTime : Int64 := 0
  /-- The first value of the session. -/
  opening : Binary64 := .zero
  /-- The highest value of the session. -/
  high : Binary64 := .zero
  /-- The lowest value of the session. -/
  low : Binary64 := .zero
  /-- The latest value. -/
  last : Binary64 := .zero
  /-- The last value of the session before. -/
  close : Binary64 := .zero
deriving DecidableEq, Inhabited

namespace Indicator

/-- The names of the fields of an indicator's record. -/
def names : List String := ["i", "m", "tick_timestamp", "open", "high", "low", "last", "close"]

/-- Reads an indicator from a delimited text. -/
def read? (input : Json.Input) : Option Indicator := do
  let r ← Json.fields? names input
  let identifier ← r.textOr "i"
  let market ← r.textOr "m"
  let tickTime ← r.wholeOr "tick_timestamp"
  let opening ← r.measureOr "open"
  let high ← r.measureOr "high"
  let low ← r.measureOr "low"
  let last ← r.measureOr "last"
  let close ← r.measureOr "close"
  return { identifier, market, tickTime, opening, high, low, last, close }

/-- Reads an indicator. -/
def decode? (bytes : Bytes) : Option Indicator := (Json.document? bytes).bind read?

/-- The text of an indicator. -/
def write (v : Indicator) : List Char :=
  Json.record (
    Json.sparseText "i" v.identifier ++ Json.sparseText "m" v.market
    ++ Json.sparseWhole "tick_timestamp" v.tickTime ++ Json.sparseMeasure "open" v.opening
    ++ Json.sparseMeasure "high" v.high ++ Json.sparseMeasure "low" v.low
    ++ Json.sparseMeasure "last" v.last ++ Json.sparseMeasure "close" v.close)

/-- The text of an indicator. -/
def text (v : Indicator) : String := String.ofList v.write

/-- The indicator with every measured zero made positive. -/
def unsignedZeros (v : Indicator) : Indicator :=
  { v with
    opening := v.opening.unsignedZero, high := v.high.unsignedZero, low := v.low.unsignedZero,
    last := v.last.unsignedZero, close := v.close.unsignedZero }

/-- Equality of indicators, measurements being compared as numbers. -/
def same (v w : Indicator) : Bool := v.unsignedZeros == w.unsignedZeros

/-! ## Series -/

/-- Values in the order they were taken down. -/
abbrev Series := List Indicator

namespace Series

/-- The values by time, those of one time as they were. -/
def sort (s : Series) : Series :=
  s.mergeSort fun v w => decide (v.tickTime.toInt ≤ w.tickTime.toInt)

/-- The last value taken down whose time is not after `time`. -/
def latest? (s : Series) (time : Int) : Option Indicator :=
  s.reverse.find? fun v => decide (v.tickTime.toInt ≤ time)

/-- The bucket of a value: which span of `millis` milliseconds its time falls in. -/
def bucket (millis : Int) (v : Indicator) : Int := v.tickTime.toInt / max millis 1

/-- Cuts a series wherever the bucket changes. -/
def groupBy (s : Series) (millis : Int) : List Series :=
  s.splitBy fun v w => bucket millis v == bucket millis w

end MarketStream.Indicator.Series
