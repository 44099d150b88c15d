import MarketStream.Quote

/-!
# The history of an instrument

The quotes of one instrument in order, the newest first, up to a capacity beyond which the oldest
are forgotten. Each quote is seen together with the one just before it, which tells whether the
quote reports a trade and against which side of the book.

* `History` — a history; `History.append` — adds a quote in its place;
* `History.Entry` — a quote with its predecessor; `History.entries` — all of them;
* `Entry.isTrade`, `Entry.side` — the trade a quote reports.
-/

namespace MarketStream.Quote

/-- The side of the book that a trade was made against. -/
inductive Side where
  /-- The best offer to buy. -/
  | bid
  /-- Neither, or no telling. -/
  | unknown
  /-- The best offer to sell. -/
  | ask
deriving DecidableEq

namespace Side

/-- The name of a side. -/
def name : Side → String
  | .bid => "BID"
  | .unknown => "Unknown"
  | .ask => "ASK"

/-- The sign of a side: buying lifts the price, selling lowers it. -/
def sign : Side → Int
  | .bid => -1
  | .unknown => 0
  | .ask => 1

end Side

/-- The quotes of one instrument. -/
structure History where
  /-- The quotes, newest first. -/
  quotes : List Quote
  /-- How many quotes are kept. -/
  capacity : Nat

namespace History

/-- A quote seen together with the one before it. -/
structure Entry where
  /-- The quote. -/
  quote : Quote
  /-- The quote just before it, if there is one. -/
  prev : Option Quote

namespace Entry

/-- The quote reports a trade: it was made when the trade was, and the traded volume moved. -/
def isTrade (e : Entry) : Bool :=
  e.quote.tickTime == e.quote.tradeTime
    && e.prev.all fun p => p.turnoverVolume != e.quote.turnoverVolume

/-- The side of the book before the quote that its trade was made against. -/
def side (e : Entry) : Side :=
  match e.prev with
  | none => .unknown
  | some p =>
    if e.isTrade then
      if p.ask.same e.quote.last then .ask
      else if p.bid.same e.quote.last then .bid
      else .unknown
    else .unknown

end Entry

/-- How many quotes are kept unless said otherwise. -/
def defaultCapacity : Nat := 10000

/-- An empty history; a capacity of zero counts as one. -/
def empty (capacity : Nat) : History := ⟨[], max capacity 1⟩

/-- Puts a quote in its place among quotes from the newest to the oldest: walking back, it passes
those it is strictly before, so equal ones keep the order of their arrival. -/
def place (q : Quote) : List Quote → List Quote
  | [] => [q]
  | newest :: older => if q.isBefore newest then newest :: place q older else q :: newest :: older

/-- Adds a quote, forgetting the oldest one beyond the capacity. -/
def append (h : History) (q : Quote) : History :=
  { h with quotes := (place q h.quotes).take h.capacity }

/-- Adds quotes one after another. -/
def extend (h : History) (qs : List Quote) : History := qs.foldl append h

/-- How many quotes are held. -/
def size (h : History) : Nat := h.quotes.length

/-- Quotes from the newest to the oldest, each with the one before it. -/
def paired : List Quote → List Entry
  | [] => []
  | q :: older => ⟨q, older.head?⟩ :: paired older

/-- The entries from the newest to the oldest. -/
def backward (h : History) : List Entry := paired h.quotes

/-- The entries from the oldest to the newest. -/
def entries (h : History) : List Entry := h.backward.reverse

/-- The newest entry. -/
def newest? (h : History) : Option Entry := h.backward.head?

end MarketStream.Quote.History
