import MarketStream.Quote.History

/-!
# Selecting from a history

A selector walks a history from the newest entry back and says of each entry whether to include it
and whether to stop there, so a query for the last few trades need not see the whole history.
Selectors can be put one after another.

* `Selector` — a selector with its own state; `Selector.andThen` — one after another;
* `Selector.run` — the entries a selector includes, newest first; `History.select` — oldest first;
* `Selector.everything`, `lastPerTick`, `trades`, `count` — the usual ones.
-/

namespace MarketStream.Quote

open History

/-- What a selector says of one entry. -/
structure Verdict where
  /-- The entry is part of the answer. -/
  includes : Bool
  /-- No older entry is looked at. -/
  stops : Bool
deriving DecidableEq

/-- A walk back through a history. -/
structure Selector where
  /-- What the selector remembers from entry to entry. -/
  State : Type
  /-- What it remembers at the newest entry. -/
  start : State
  /-- What it says of an entry, and what it remembers then. -/
  check : State → Entry → State × Verdict

namespace Selector

/-- A selector that judges each entry by itself. -/
def pointwise (verdict : Entry → Verdict) : Selector := ⟨Unit, (), fun _ e => ((), verdict e)⟩

/-- Shows `second` the entries that `first` includes; either may stop the walk. -/
def andThen (first second : Selector) : Selector where
  State := first.State × second.State
  start := (first.start, second.start)
  check := fun (s, t) e =>
    match first.check s e with
    | (s, v) =>
      if v.includes then
        match second.check t e with
        | (t, w) => ((s, t), ⟨w.includes, v.stops || w.stops⟩)
      else ((s, t), v)

/-- The entries that a selector in state `s` includes, walking from the newest to the oldest. -/
def runFrom (sel : Selector) (s : sel.State) : List Entry → List Entry
  | [] => []
  | e :: older =>
    match sel.check s e with
    | (s, v) =>
      let rest := if v.stops then [] else runFrom sel s older
      if v.includes then e :: rest else rest

/-- The entries that a selector includes, walking from the newest to the oldest. -/
def run (sel : Selector) (entries : List Entry) : List Entry := sel.runFrom sel.start entries

/-- Every entry. -/
def everything : Selector := pointwise fun _ => ⟨true, false⟩

/-- The entries that report a trade. -/
def trades : Selector := pointwise fun e => ⟨e.isTrade, false⟩

/-- The newest entry of each tick time, the state being the last tick time seen. -/
def lastPerTick : Selector where
  State := Option Int64
  start := none
  check := fun seen e =>
    if seen = some e.quote.tickTime then (seen, ⟨false, false⟩)
    else (some e.quote.tickTime, ⟨true, false⟩)

/-- The first `n` entries of the walk, and never none of them. -/
def count (n : Nat) : Selector where
  State := Nat
  start := 0
  check := fun seen _ => (seen + 1, ⟨true, decide (n ≤ seen + 1)⟩)

end Selector

/-- The entries that a selector includes, from the oldest to the newest. -/
def History.select (h : History) (sel : Selector) : List Entry := (sel.run h.backward).reverse

end MarketStream.Quote
