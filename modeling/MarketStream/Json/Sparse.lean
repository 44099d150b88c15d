import MarketStream.Json.Record
import MarketStream.Json.Writer

/-!
# Sparse records

Market data records leave out every field that is zero or empty, and a field that is left out
reads as zero or empty. Both zeros of a measured number are left out.

* `sparseText`, `sparseWhole`, `sparseMeasure` — the member of a field, or nothing;
* `Fields.textOr`, `Fields.wholeOr`, `Fields.measureOr` — reading such a field.
-/

namespace MarketStream.Json

/-- The member of a text, unless it is empty. -/
def sparseText (name : String) (s : String) : List (String × List Char) :=
  if s = "" then [] else [(name, quote s)]

/-- The member of a whole number, unless it is zero. -/
def sparseWhole (name : String) (n : Int64) : List (String × List Char) :=
  if n = 0 then [] else [(name, Text.integer n.toInt)]

/-- The member of a measured number, unless it is zero. -/
def sparseMeasure (name : String) (x : Binary64) : List (String × List Char) :=
  if x.isZero then [] else [(name, writeFloat x)]

namespace Fields

/-- A text, empty if left out. -/
def textOr (name : String) (r : Fields) : Option String := r.orElse name "" text?

/-- A whole number, zero if left out. -/
def wholeOr (name : String) (r : Fields) : Option Int64 := r.orElse name 0 int64?

/-- A measured number, zero if left out. -/
def measureOr (name : String) (r : Fields) : Option Binary64 := r.orElse name .zero float?

end MarketStream.Json.Fields
