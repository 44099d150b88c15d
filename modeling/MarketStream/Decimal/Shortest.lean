import MarketStream.Decimal.Binary64
import MarketStream.Text.Numeral

/-!
# Shortest decimals

A number is written with the fewest digits that read back as the same number, and among those with
the digits nearest to it; where two are equally near, the format decides. A point of the grid of
`n`-digit decimals reads back only if one of the number's two neighbours on that grid does, so
trying the neighbours for `n = 1, 2, …` finds it; seventeen digits are always enough.

* `Decimal` — a numeral with its point: the digits after `0.`, times a power of ten;
* `Binary64.shortest` — the shortest decimal of a magnitude;
* `Layout` — the decisions of a format, and `Layout.write`, which follows them.
-/

namespace MarketStream

/-- The decimal `0.d₁d₂… * 10 ^ point`; zero has the one digit `0` and point `1`. -/
structure Decimal where
  /-- The digits, most significant first. -/
  digits : List Char
  /-- How many digits stand before the decimal point. -/
  point : Int
deriving DecidableEq

/-- The decimal `n * 10 ^ exponent` without trailing zeros. -/
def Decimal.ofNat (n : Nat) (exponent : Int) : Decimal :=
  let digits := Text.natural n
  let short := (digits.reverse.dropWhile (· == '0')).reverse
  if short.isEmpty then ⟨['0'], 1⟩ else ⟨short, digits.length + exponent⟩

namespace Binary64

/-- How many digits the magnitude `n / d` has before the point: `p` with
`10 ^ (p - 1) ≤ n / d < 10 ^ p`. -/
def pointOf (n d : Nat) : Int :=
  if d ≤ n then (Text.natural (n / d)).length
  else 1 - (Text.natural ((d - 1) / n)).length

/-- The magnitude `n / d` in units of `10 ^ unit`, as a fraction. -/
def inUnits (n d : Nat) (unit : Int) : Nat × Nat :=
  if 0 ≤ unit then (n, d * Nat.pow 10 unit.toNat) else (n * Nat.pow 10 (-unit).toNat, d)

/-- The decimal `digits * 10 ^ unit` reads back as the magnitude of `x`. -/
def readsBack (x : Binary64) (digits : Nat) (unit : Int) : Bool :=
  (ofDecimal? false digits unit).any fun y => y.rank == x.rank

/-- The neighbour of `x` on the grid of multiples of `10 ^ unit` that reads back, the nearer one
if both do. -/
def neighbour? (h : Halfway) (x : Binary64) (unit : Int) : Option Nat :=
  let (n, d) := inUnits x.numerator x.denominator unit
  let low := n / d
  match readsBack x low unit, readsBack x (low + 1) unit with
  | true, true => some (h.round n d)
  | true, false => some low
  | false, true => some (low + 1)
  | false, false => none

/-- Tries grids with more and more digits, `count` of them still to go. -/
def shortestFrom (h : Halfway) (x : Binary64) (point : Int) : (count used : Nat) → Option Decimal
  | 0, _ => none
  | count + 1, used =>
    let unit := point - (used + 1)
    match neighbour? h x unit with
    | some digits => some (Decimal.ofNat digits unit)
    | none => shortestFrom h x point count (used + 1)

/-- The shortest decimal of the magnitude of a number. -/
def shortest (h : Halfway) (x : Binary64) : Decimal :=
  if x.isZero then ⟨['0'], 1⟩
  else
    let point := pointOf x.numerator x.denominator
    (shortestFrom h x point 17 0).getD (Decimal.ofNat x.numerator 0)

end Binary64

/-- The decisions of a format for decimals. -/
structure Layout where
  /-- Whether a decimal with this many digits before the point is written without exponent. -/
  positional : Int → Bool
  /-- What follows the digits of a whole number written without exponent. -/
  whole : List Char
  /-- Which of two equally near decimals of the same length is written. -/
  halfway : Halfway

namespace Layout

/-- Writes a decimal without exponent. -/
def place (l : Layout) (d : Decimal) : List Char :=
  let size : Int := d.digits.length
  if size ≤ d.point then d.digits ++ List.replicate (d.point - size).toNat '0' ++ l.whole
  else if 0 < d.point then
    d.digits.take d.point.toNat ++ '.' :: d.digits.drop d.point.toNat
  else '0' :: '.' :: (List.replicate (-d.point).toNat '0' ++ d.digits)

/-- Writes a decimal with one digit before the point and a signed exponent. -/
def scientific (d : Decimal) : List Char :=
  let exponent := d.point - 1
  let mantissa := match d.digits with
    | first :: second :: rest => first :: '.' :: second :: rest
    | short => short
  mantissa ++ 'e' :: (if 0 < exponent then ['+'] else []) ++ Text.integer exponent

/-- Writes a number with the fewest digits that read back. -/
def write (l : Layout) (x : Binary64) : List Char :=
  let d := x.shortest l.halfway
  (if x.negative then ['-'] else []) ++ if l.positional d.point then l.place d else scientific d

/-- Numbers in wire texts: without exponent from `0.00001` up to `10 ^ 16`, a whole number
ending in `.0`, the even one of two equally near decimals. -/
def wire : Layout := ⟨fun point => decide (-4 ≤ point ∧ point ≤ 16), ['.', '0'], .even⟩

/-- Numbers in settings texts: never an exponent, whole numbers without a point, and the
greater magnitude of two equally near decimals. -/
def plain : Layout := ⟨fun _ => true, [], .away⟩

end MarketStream.Layout
