import MarketStream.Frame
import MarketStream.Json.Sparse

/-!
# Trades

A trade of an instrument, reported by the venue or inferred from its quotes. Trades are ordered by
time and then by the text of their id.

* `Trade` — a trade; `Trade.read?` and `Trade.write` — its sparse record;
* `Trade.idNumber?` — the id as a number;
* `Trade.Tape` — trades in the order they were taken down, with `sort` and `tail`.
-/

namespace MarketStream

/-- One trade. -/
structure Trade where
  /-- The instrument. -/
  identifier : String := ""
  /-- The number of its market. -/
  market : Int64 := 0
  /-- When the trade was made, in milliseconds. -/
  time : Int64 := 0
  /-- What the venue calls the kind of trade. -/
  type : String := ""
  /-- What the venue calls the trade. -/
  id : String := ""
  /-- The price. -/
  price : Binary64 := .zero
  /-- The volume. -/
  volume : Int64 := 0
  /-- The broker who bought. -/
  buyer : String := ""
  /-- The broker who sold. -/
  seller : String := ""
deriving DecidableEq, Inhabited

namespace Trade

/-- The kind given to a trade that was inferred from quotes. -/
def inferredType : String := "TradeCatcher"

/-- A trade that was inferred from quotes. -/
def isInferred (t : Trade) : Bool := t.type == inferredType

/-- The ASCII digits. -/
def isDigitByte (b : UInt8) : Bool := 48 ≤ b && b ≤ 57

/-- A result that is not negative, as long as it is a signed 64-bit number. -/
def representable? (n : Nat) : Option Nat := if n < 0x8000000000000000 then some n else none

/-- Puts a digit behind a number read so far: ten times the number, and then the digit. Both
results have to be signed 64-bit numbers. -/
def pushDigit? (n : Nat) (b : UInt8) : Option Nat :=
  if isDigitByte b then do
    let tenfold ← representable? (n * 10)
    representable? (tenfold + (b - 48).toNat)
  else none

/-- The id as a number, if it consists of digits. An empty id reads as zero. -/
def idNumber? (t : Trade) : Option Nat := (textBytes t.id).foldlM pushDigit? 0

/-- The order of trades: by time, then by the text of the id. -/
def order (t u : Trade) : Ordering :=
  (compare t.time.toInt u.time.toInt).then (compare t.id u.id)

/-- The names of the fields of a trade's record. -/
def names : List String :=
  ["i", "m", "trade_timestamp", "trade_type", "trade_id", "price", "volume", "broker_buying",
   "broker_selling"]

/-- Reads a trade from a delimited text. -/
def read? (input : Json.Input) : Option Trade := do
  let r ← Json.fields? names input
  let identifier ← r.textOr "i"
  let market ← r.wholeOr "m"
  let time ← r.wholeOr "trade_timestamp"
  let type ← r.textOr "trade_type"
  let id ← r.textOr "trade_id"
  let price ← r.measureOr "price"
  let volume ← r.wholeOr "volume"
  let buyer ← r.textOr "broker_buying"
  let seller ← r.textOr "broker_selling"
  return { identifier, market, time, type, id, price, volume, buyer, seller }

/-- Reads a trade. -/
def decode? (bytes : Bytes) : Option Trade := (Json.document? bytes).bind read?

/-- The trade in the payload of a frame. -/
def ofFrame (f : Frame) : Except Fault Trade := readOr (f.payload?.bind read?)

/-- The text of a trade. -/
def write (t : Trade) : List Char :=
  Json.record (
    Json.sparseText "i" t.identifier ++ Json.sparseWhole "m" t.market
    ++ Json.sparseWhole "trade_timestamp" t.time ++ Json.sparseText "trade_type" t.type
    ++ Json.sparseText "trade_id" t.id ++ Json.sparseMeasure "price" t.price
    ++ Json.sparseWhole "volume" t.volume ++ Json.sparseText "broker_buying" t.buyer
    ++ Json.sparseText "broker_selling" t.seller)

/-- The text of a trade. -/
def text (t : Trade) : String := String.ofList t.write

/-- Equality of trades, prices being compared as numbers. -/
def same (t u : Trade) : Bool :=
  { t with price := t.price.unsignedZero } == { u with price := u.price.unsignedZero }

/-! ## Tapes -/

/-- Trades in the order they were taken down. -/
abbrev Tape := List Trade

namespace Tape

/-- The trades in order, those that compare equal as they were. -/
def sort (tape : Tape) : Tape := tape.mergeSort fun t u => (t.order u).isLE

/-- The last `n` trades, or all if there are fewer. -/
def tail (tape : Tape) (n : Nat) : Tape := tape.drop (tape.length - n)

end MarketStream.Trade.Tape
