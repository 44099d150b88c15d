import MarketStream.Decimal.Scaling
import MarketStream.Decimal.Shortest
import MarketStream.Json.Value

/-!
# JSON numbers

A number is spelled strictly: no leading zeros, no leading `+`, digits on both sides of the point.
A numeral with neither point nor exponent that fits 64 bits denotes an integer; any other denotes
a measured number, which is read digit by digit and then scaled. The numeral `-0` is a measured zero,
since only those have a sign.

* `Numeral` — the parts of a spelled number; `Numeral.parse?` reads one;
* `Numeral.value?` — the number it denotes, unless that is out of range;
* `Value.ofBinary64`, `writeInteger`, `writeFloat` — writing numbers.
-/

namespace MarketStream.Json

/-- The parts of a spelled number. -/
structure Numeral where
  /-- Whether a `-` leads. -/
  negative : Bool
  /-- The digits before the point. -/
  whole : List Char
  /-- The digits after the point, empty without a point. -/
  fraction : List Char
  /-- The exponent, if one is spelled. -/
  exponent : Option Int
deriving DecidableEq

namespace Numeral

/-- Reads an exponent up to the end of the text. -/
def exponent? : List Char → Option (Option Int)
  | [] => some none
  | e :: rest => if e = 'e' ∨ e = 'E' then (Text.integer? rest).map some else none

/-- Reads an optional point with at least one digit, and gives the rest. -/
def fraction? : List Char → Option (List Char × List Char)
  | '.' :: rest =>
    let digits := rest.takeWhile Char.isDigit
    if digits = [] then none else some (digits, rest.dropWhile Char.isDigit)
  | rest => some ([], rest)

/-- Reads the digits of a number without its sign, up to the end of the text. -/
def unsigned? (negative : Bool) (cs : List Char) : Option Numeral :=
  let whole := cs.takeWhile Char.isDigit
  if whole = [] ∨ (whole.head? = some '0' ∧ whole ≠ ['0']) then none
  else
    match fraction? (cs.dropWhile Char.isDigit) with
    | none => none
    | some (fraction, rest) => (exponent? rest).map fun e => ⟨negative, whole, fraction, e⟩

/-- Reads a number that takes up the whole text. -/
def parse? : List Char → Option Numeral
  | '-' :: cs => unsigned? true cs
  | cs => unsigned? false cs

/-- Neither point nor exponent. -/
def isWhole (n : Numeral) : Bool := n.fraction.isEmpty && n.exponent.isNone

/-- The integer that a numeral denotes, if it denotes one. -/
def integer? (n : Numeral) : Option Integer :=
  if n.isWhole then
    let magnitude := Text.digitsValue n.whole
    if n.negative then (if magnitude = 0 then none else Integer.ofInt? (-magnitude))
    else Integer.ofInt? magnitude
  else none

/-- The measured number that a numeral is read as, unless it is too large. Of the digits before the
point those that do not fit count as zeros, and of those after it they do not count. -/
def float? (n : Numeral) : Option Binary64 :=
  let (units, dropped) := takeDigits 0 n.whole
  let (digits, ignored) := takeDigits units n.fraction
  let taken := n.fraction.length - ignored.length
  (Binary64.nearest? n.negative digits 1).bind fun x =>
    x.scale? (n.exponent.getD 0 + dropped.length - taken)

/-- The value that a numeral denotes, unless it is out of range. -/
def value? (n : Numeral) : Option Value :=
  match n.integer? with
  | some i => some (.integer i)
  | none => n.float?.map .float

end Numeral

/-- The text of an integer. -/
def writeInteger (n : Integer) : List Char := Text.integer n.val

/-- The text of a measured number. -/
def writeFloat (x : Binary64) : List Char := Layout.wire.write x

end MarketStream.Json
