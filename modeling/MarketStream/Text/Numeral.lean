/-!
# Whole numbers in decimal

Reading and writing natural numbers and integers as decimal digits. Leading zeros are read; the
sign rules of a signed numeral are those of market ids: at most one `+` or `-`, then digits only.
-/

namespace MarketStream.Text

/-- The digits of a natural number. -/
def natural (n : Nat) : List Char := Nat.toDigits 10 n

/-- The digits of an integer, after a `-` if it is negative. -/
def integer : Int → List Char
  | .ofNat n => natural n
  | .negSucc n => '-' :: natural (n + 1)

/-- The value of decimal digits, `0` for none. -/
def digitsValue (cs : List Char) : Nat := Nat.ofDigitChars 10 cs 0

/-- Reads one or more digits and nothing else. -/
def natural? (cs : List Char) : Option Nat :=
  if cs ≠ [] ∧ cs.all Char.isDigit then some (digitsValue cs) else none

/-- Reads an optional sign and then digits. -/
def integer? : List Char → Option Int
  | '+' :: cs => (natural? cs).map Int.ofNat
  | '-' :: cs => (natural? cs).map fun n => -Int.ofNat n
  | cs => (natural? cs).map Int.ofNat

/-- Reads an optional sign and digits that denote a signed 64-bit number. -/
def int64? (cs : List Char) : Option Int64 :=
  (integer? cs).bind fun n =>
    if Int64.minValue.toInt ≤ n ∧ n ≤ Int64.maxValue.toInt then some (.ofInt n) else none

/-- The digits of a number read back as the number. -/
theorem natural?_natural (n : Nat) : natural? (natural n) = some n := by
  have digits : (natural n).all Char.isDigit = true :=
    List.all_eq_true.mpr fun c hc =>
      Nat.isDigit_of_mem_toDigits (b := 10) (n := n) (by decide) (by decide) hc
  have nonempty : natural n ≠ [] := Nat.toDigits_ne_nil
  rw [natural?, if_pos ⟨nonempty, digits⟩, digitsValue, natural, Nat.ofDigitChars_ten_toDigits]

end MarketStream.Text
