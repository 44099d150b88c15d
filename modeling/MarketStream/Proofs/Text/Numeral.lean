import Mathlib.Algebra.Ring.Nat
import MarketStream.Text.Numeral

/-!
# Decimal digits

The digits of a whole number, without leading zeros, and what digits put together are worth.

* `head?_natural` — only zero begins with a zero;
* `length_natural_bounds` — the count of digits is known by powers of ten;
* `natural_mul_pow` — digits with zeros after them;
* `digitsValue_append` — the value of digits put together;
* `integer?_integer` — a written integer is read back.
-/

namespace MarketStream.Text

theorem isDigit_of_mem_natural {n : Nat} {c : Char} (h : c ∈ natural n) : c.isDigit = true :=
  Nat.isDigit_of_mem_toDigits (by decide) (by decide) h

theorem natural_ne_nil (n : Nat) : natural n ≠ [] := Nat.toDigits_ne_nil

/-- Different numbers have different digits. -/
theorem natural_injective : Function.Injective natural := fun m n h => by
  have value (k : Nat) : Nat.ofDigitChars 10 (natural k) 0 = k :=
    Nat.ofDigitChars_toDigits (by decide) (by decide)
  rw [← value m, h, value n]

theorem digitChar_ne_zero : ∀ d < 10, 0 < d → d.digitChar ≠ '0' := by decide

/-- Only zero begins with a zero. -/
theorem head?_natural {n : Nat} (pos : 0 < n) : (natural n).head? ≠ some '0' := by
  induction n using Nat.strongRecOn with
  | ind n ih =>
    by_cases small : n < 10
    · rw [natural, Nat.toDigits_of_lt_base small]
      simpa using digitChar_ne_zero n small pos
    · -- The leading digit of a longer number is that of its tenth.
      have quotient := ih (n / 10) (by omega) (by omega)
      rw [natural, Nat.toDigits_of_base_le (by decide) (by omega), List.head?_append]
      obtain ⟨c, rest, eq⟩ := List.exists_cons_of_ne_nil (natural_ne_nil (n / 10))
      rw [eq] at quotient
      show (natural (n / 10)).head?.or _ ≠ _
      rw [eq]
      exact quotient

/-- The last digit of a number. -/
theorem exists_natural_last (n : Nat) : ∃ front, natural n = front ++ [(n % 10).digitChar] := by
  by_cases small : n < 10
  · refine ⟨[], ?_⟩
    rw [natural, Nat.toDigits_of_lt_base small, Nat.mod_eq_of_lt small, List.nil_append]
  · exact ⟨_, Nat.toDigits_of_base_le (by decide) (Nat.not_lt.mp small)⟩

/-! ## How many digits there are -/

theorem length_natural_le_iff {n k : Nat} (pos : 0 < k) :
    (natural n).length ≤ k ↔ n < 10 ^ k :=
  Nat.length_toDigits_le_iff (by decide) pos

/-- The count of the digits of a number is known by the powers of ten around it. -/
theorem length_natural_bounds {n : Nat} (pos : 0 < n) :
    ∃ l, (natural n).length = l + 1 ∧ 10 ^ l ≤ n ∧ n < 10 ^ (l + 1) := by
  have some_digit : (natural n).length ≠ 0 := Nat.ne_of_gt Nat.length_toDigits_pos
  obtain ⟨l, hl⟩ := Nat.exists_eq_succ_of_ne_zero some_digit
  refine ⟨l, hl, ?_, (length_natural_le_iff l.succ_pos).mp (Nat.le_of_eq hl)⟩
  rcases l.eq_zero_or_pos with rfl | more
  · exact pos
  · refine Nat.not_lt.mp fun less => ?_
    have := (length_natural_le_iff more).mpr less
    exact absurd (hl ▸ this) (Nat.not_succ_le_self l)

theorem natural_mul_ten {n : Nat} (pos : 0 < n) : natural (n * 10) = natural n ++ ['0'] := by
  have append := Nat.toDigits_append_toDigits (b := 10) (d := 0) (by decide) pos (by decide)
  rw [Nat.add_zero, Nat.mul_comm] at append
  exact append.symm

/-- Zeros after the digits of a number multiply it by a power of ten. -/
theorem natural_mul_pow {n : Nat} (pos : 0 < n) (z : Nat) :
    natural (n * 10 ^ z) = natural n ++ List.replicate z '0' := by
  induction z with
  | zero => rw [Nat.pow_zero, Nat.mul_one, List.replicate_zero, List.append_nil]
  | succ z ih =>
    rw [Nat.pow_succ, ← Nat.mul_assoc,
      natural_mul_ten (Nat.mul_pos pos (Nat.pow_pos (by decide))), ih, List.append_assoc,
      ← List.replicate_succ']

/-! ## Values -/

theorem digitsValue_natural (n : Nat) : digitsValue (natural n) = n :=
  Nat.ofDigitChars_ten_toDigits

/-- The value of digits put together. -/
theorem digitsValue_append (front back : List Char) :
    digitsValue (front ++ back) = digitsValue front * 10 ^ back.length + digitsValue back := by
  rw [digitsValue, Nat.ofDigitChars_append, Nat.ofDigitChars_eq_ofDigitChars_zero, Nat.mul_comm]
  rfl

theorem digitsValue_zeros (z : Nat) : digitsValue (List.replicate z '0') = 0 :=
  Nat.ofDigitChars_replicate_zero

theorem integer?_natural (n : Nat) : integer? (natural n) = some (n : Int) := by
  have digit {c : Char} {cs : List Char} (eq : natural n = c :: cs) : c.isDigit = true :=
    isDigit_of_mem_natural (n := n) (eq ▸ List.mem_cons_self)
  rw [integer?.eq_def]
  split
  · next eq => exact absurd (digit eq) (by decide)
  · next eq => exact absurd (digit eq) (by decide)
  · rw [natural?_natural]
    rfl

/-- A written integer is read back. -/
theorem integer?_integer (n : Int) : integer? (integer n) = some n := by
  cases n with
  | ofNat n => exact integer?_natural n
  | negSucc n =>
    rw [integer, integer?, natural?_natural]
    rfl

end MarketStream.Text
