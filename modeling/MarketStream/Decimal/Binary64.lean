/-!
# Binary64 numbers

Prices, volumes and other measurements are finite IEEE 754 binary64 numbers. They are kept as a
sign and a *rank*: the place of the magnitude among all finite magnitudes in increasing order.
Ranks make equality, order and rounding questions about natural numbers, so nothing here depends
on machine arithmetic.

* `Binary64` — a finite number, with both zeros;
* `Binary64.numerator`, `Binary64.denominator` — its magnitude as an exact fraction;
* `Binary64.same` — numeric equality, which does not tell the zeros apart;
* `Halfway.round` — the whole number nearest to a fraction, with a choice of where a half goes;
* `Binary64.nearest?` — the number nearest to a fraction, a half going to the even neighbour;
* `Binary64.ofDecimal?` — the number nearest to a decimal, if it is in range.
-/

namespace MarketStream

/-- Where a number goes that lies exactly between two neighbours. -/
inductive Halfway where
  /-- To the even neighbour. -/
  | even
  /-- To the neighbour farther from zero. -/
  | away
deriving DecidableEq

/-- The whole number nearest to `n / d`. -/
def Halfway.round (h : Halfway) (n d : Nat) : Nat :=
  let q := n / d
  let r := n % d
  if 2 * r < d then q else if d < 2 * r then q + 1
  else match h with
    | .even => q + q % 2
    | .away => q + 1

/-- The number of magnitudes in a binade, `2 ^ 52`. -/
def Binary64.binade : Nat := 0x10000000000000

/-- The number of finite magnitudes: 2047 binades, the first one subnormal. -/
def Binary64.magnitudes : Nat := 2047 * binade

/-- A finite binary64 number: its sign and the rank of its magnitude. -/
structure Binary64 where
  /-- The sign bit, which a zero has too. -/
  negative : Bool
  /-- The place of the magnitude among all finite magnitudes, `0` for zero. -/
  rank : Nat
  /-- Only finite magnitudes have a rank. -/
  rank_lt : rank < Binary64.magnitudes
deriving DecidableEq

namespace Binary64

/-- Zero with a positive sign. -/
def zero : Binary64 := ⟨false, 0, by decide⟩

instance : Inhabited Binary64 := ⟨zero⟩

/-- Either zero. -/
def isZero (x : Binary64) : Bool := x.rank == 0

/-- Numeric equality: the two zeros are equal, any other numbers only to themselves. -/
def same (x y : Binary64) : Bool := x.rank == y.rank && (x.negative == y.negative || x.isZero)

/-- The same number, with a positive sign if it is zero. -/
def unsignedZero (x : Binary64) : Binary64 := if x.isZero then zero else x

/-- How many binades above the lowest two a rank lies; the magnitude is a multiple of
`2 ^ (scale - 1074)`. -/
def scale (x : Binary64) : Nat := x.rank / binade - 1

/-- The magnitude as a multiple of `2 ^ (scale - 1074)`. -/
def significand (x : Binary64) : Nat := x.rank - x.scale * binade

/-- The numerator of the magnitude. -/
def numerator (x : Binary64) : Nat := x.significand <<< (x.scale - 1074)

/-- The denominator of the magnitude. -/
def denominator (x : Binary64) : Nat := 1 <<< (1074 - x.scale)

/-- The rank nearest to the fraction `n / d`. With `s` binades skipped the significand is
`n * 2 ^ 1074 / (d * 2 ^ s)`, and `s` is the least number that leaves it at most 53 bits; rounding
up to `2 ^ 53` runs into the next binade by itself. -/
def nearestRank (n d : Nat) : Nat :=
  let guess := Nat.log2 n + 1021 - Nat.log2 d
  let s := if (n <<< 1074) / (d <<< guess) < 2 * binade then guess else guess + 1
  s * binade + Halfway.even.round (n <<< 1074) (d <<< s)

/-- The number of the given sign and rank, unless the rank is beyond the finite ones. -/
def ofRank? (negative : Bool) (rank : Nat) : Option Binary64 :=
  if h : rank < magnitudes then some ⟨negative, rank, h⟩ else none

/-- The number of the given sign nearest to the fraction `n / d`, unless it is too large. -/
def nearest? (negative : Bool) (n d : Nat) : Option Binary64 :=
  ofRank? negative (if n = 0 then 0 else nearestRank n d)

/-- The number nearest to `digits * 10 ^ exponent`, unless it is too large. A decimal whose first
digit stands far outside the finite range is settled without computing the power. -/
def ofDecimal? (negative : Bool) (digits : Nat) (exponent : Int) : Option Binary64 :=
  let place := (Nat.toDigits 10 digits).length + exponent
  if digits = 0 ∨ place < -330 then some ⟨negative, 0, by decide⟩
  else if 310 < place then none
  else if 0 ≤ exponent then nearest? negative (digits * Nat.pow 10 exponent.toNat) 1
  else nearest? negative digits (Nat.pow 10 (-exponent).toNat)

/-- The number nearest to an integer, unless it is too large. -/
def ofInt? (n : Int) : Option Binary64 := nearest? (decide (n < 0)) n.natAbs 1

end MarketStream.Binary64
