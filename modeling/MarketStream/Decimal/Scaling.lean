import MarketStream.Decimal.Binary64

/-!
# Decimals read step by step

A reader of wire texts keeps only so many digits of a decimal as fit 64 bits. It takes the number
nearest to those, and moves the point by multiplying by a power of ten or dividing by one. Each step
rounds, so what is read need not be the number nearest to the decimal, and may even be out of range
where that is not.

* `Binary64.product?`, `Binary64.quotient?` — arithmetic, rounded to the nearest number;
* `takeDigits` — as many digits as fit;
* `Binary64.movePoint?` — moves the point a few places; `Binary64.scale?` — any number of places.
-/

namespace MarketStream

namespace Binary64

/-- The number nearest to a product, unless it is too large. -/
def product? (x y : Binary64) : Option Binary64 :=
  nearest? (x.negative != y.negative) (x.numerator * y.numerator) (x.denominator * y.denominator)

/-- The number nearest to a quotient, unless it is too large. -/
def quotient? (x y : Binary64) : Option Binary64 :=
  nearest? (x.negative != y.negative) (x.numerator * y.denominator) (x.denominator * y.numerator)

/-- The number nearest to a power of ten, unless it is too large. -/
def powerOfTen? (k : Nat) : Option Binary64 := ofDecimal? false 1 k

/-- The greatest exponent of a power of ten that is in range. -/
def maxPower : Nat := 308

/-- Moves the point to the right, or to the left if the number of places is negative, by one
multiplication or division. -/
def movePoint? (x : Binary64) (places : Int) : Option Binary64 :=
  (powerOfTen? places.natAbs).bind fun p => if 0 ≤ places then x.product? p else x.quotient? p

/-- Moves the point as far to the left as one division can, and does so again and again until there
is nothing left of the number. -/
def shrink? : (times : Nat) → Binary64 → Option Binary64
  | 0, x => some x
  | times + 1, x =>
    if x.isZero then some x else (x.movePoint? (-maxPower)).bind (shrink? times)

/-- Moves the point any number of places. Far to the left takes more than one division, and far to
the right is out of range, except for zero. -/
def scale? (x : Binary64) (places : Int) : Option Binary64 :=
  if maxPower < places then (if x.isZero then some x else none)
  else
    let times := ((-places).toNat - 1) / maxPower
    (x.shrink? times).bind fun y => y.movePoint? (places + maxPower * times)

end Binary64

/-- Puts digits behind those of a number for as long as that fits 64 bits, and gives the digits that
are left. -/
def takeDigits : (n : Nat) → List Char → Nat × List Char
  | n, [] => (n, [])
  | n, c :: rest =>
    let longer := 10 * n + (c.toNat - '0'.toNat)
    if longer < 0x10000000000000000 then takeDigits longer rest else (n, c :: rest)

end MarketStream
