import MarketStream.Decimal.Binary64
import MarketStream.Text.Numeral

/-!
# Fixed decimals

A number written with a fixed count of places after the point, rounded from its exact value with
a half going to the even neighbour. The sign is kept even when every digit is zero.
-/

namespace MarketStream.Binary64

/-- Writes a number with exactly `places` digits after the point. -/
def fixed (places : Nat) (x : Binary64) : List Char :=
  let digits := Text.natural (Halfway.even.round (x.numerator * Nat.pow 10 places) x.denominator)
  let padded := List.replicate (places + 1 - digits.length) '0' ++ digits
  let whole := padded.length - places
  (if x.negative then ['-'] else []) ++ padded.take whole ++ '.' :: padded.drop whole

end MarketStream.Binary64
