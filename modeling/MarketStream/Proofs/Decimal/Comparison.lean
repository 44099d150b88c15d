import Mathlib.Algebra.Order.Field.Rat
import MarketStream.Proofs.Decimal.Rounding

/-!
# Measured numbers compared

Every magnitude but zero is spelled in one way, and zero in two. So numbers that compare equal are those
that denote one rational number, and making a zero positive changes nothing else.

* `Binary64.value` — the number that is denoted;
* `Binary64.value_eq_iff` — when two denote one number;
* `Binary64.same_iff_value_eq` — numbers compare equal just then;
* `Binary64.unsignedZero_eq_iff_value_eq` — and are identical just then, once zeros are positive.
-/

namespace MarketStream.Binary64

/-- The magnitude as a fraction. -/
def magnitude (x : Binary64) : ℚ := x.numerator / x.denominator

/-- The number that is denoted. -/
def value (x : Binary64) : ℚ := if x.negative then -x.magnitude else x.magnitude

variable {x y : Binary64}

theorem isZero_iff : x.isZero = true ↔ x.rank = 0 := beq_iff_eq

theorem magnitude_of_isZero (zero : x.isZero = true) : x.magnitude = 0 := by
  have significand : x.significand = 0 := by
    rw [significand, isZero_iff.mp zero, Nat.zero_sub]
  rw [magnitude, numerator_eq, significand, Nat.zero_mul, Nat.cast_zero, zero_div]

theorem rank_pos (nonzero : x.isZero ≠ true) : 0 < x.rank :=
  Nat.pos_of_ne_zero fun zero => nonzero (isZero_iff.mpr zero)

theorem magnitude_pos (nonzero : x.isZero ≠ true) : 0 < x.magnitude :=
  div_pos (Nat.cast_pos.mpr (numerator_pos x (rank_pos nonzero)))
    (Nat.cast_pos.mpr (denominator_pos x))

/-- The rank of a number is the one nearest to its magnitude. -/
theorem nearestRank_self (pos : 0 < x.rank) : nearestRank x.numerator x.denominator = x.rank := by
  refine nearestRank_of_close (numerator_pos x pos) (denominator_pos x) ⟨?_, ?_⟩
  · exact Nat.mul_le_mul_right _ (Nat.le_succ _)
  · exact Nat.le_add_right _ _

/-- A magnitude has one rank. -/
theorem rank_eq_of_magnitude_eq (hx : x.isZero ≠ true) (hy : y.isZero ≠ true)
    (same : x.magnitude = y.magnitude) : x.rank = y.rank := by
  have denominator_ne (z : Binary64) : (z.denominator : ℚ) ≠ 0 :=
    Nat.cast_ne_zero.mpr (denominator_pos z).ne'
  have cross : x.numerator * y.denominator = y.numerator * x.denominator := by
    rw [magnitude, magnitude, div_eq_div_iff (denominator_ne x) (denominator_ne y)] at same
    exact_mod_cast same
  rw [← nearestRank_self (rank_pos hx), ← nearestRank_self (rank_pos hy)]
  exact nearestRank_congr (numerator_pos x (rank_pos hx)) (denominator_pos x)
    (numerator_pos y (rank_pos hy)) (denominator_pos y) cross

theorem value_eq_zero_iff : x.value = 0 ↔ x.isZero = true := by
  have zero_iff : x.value = 0 ↔ x.magnitude = 0 := by
    rw [value]
    split
    · exact neg_eq_zero
    · exact Iff.rfl
  rw [zero_iff]
  refine ⟨fun zero => ?_, magnitude_of_isZero⟩
  by_contra nonzero
  exact (magnitude_pos nonzero).ne' zero

theorem eq_of_negative_of_rank (sign : x.negative = y.negative) (place : x.rank = y.rank) :
    x = y := by
  obtain ⟨xn, xr, xb⟩ := x
  obtain ⟨yn, yr, yb⟩ := y
  obtain rfl : xn = yn := sign
  obtain rfl : xr = yr := place
  rfl

/-- Numbers but zero that denote one number are one. -/
theorem eq_of_value_eq (hx : x.isZero ≠ true) (hy : y.isZero ≠ true) (same : x.value = y.value) :
    x = y := by
  have px := magnitude_pos hx
  have py := magnitude_pos hy
  rw [value, value] at same
  -- Numbers of opposite signs lie on either side of zero.
  split at same <;> split at same
  · next nx ny =>
    exact eq_of_negative_of_rank (nx.trans ny.symm)
      (rank_eq_of_magnitude_eq hx hy (neg_injective same))
  · linarith
  · linarith
  · next nx ny =>
    exact eq_of_negative_of_rank (by rw [eq_false_of_ne_true nx, eq_false_of_ne_true ny])
      (rank_eq_of_magnitude_eq hx hy same)

/-- Only zeros denote the number of another one. -/
theorem value_eq_iff : x.value = y.value ↔ x = y ∨ x.isZero = true ∧ y.isZero = true := by
  constructor
  · intro same
    by_cases hx : x.isZero = true
    · exact .inr ⟨hx, value_eq_zero_iff.mp (same ▸ value_eq_zero_iff.mpr hx)⟩
    · refine .inl (eq_of_value_eq hx (fun hy => hx ?_) same)
      exact value_eq_zero_iff.mp (same.trans (value_eq_zero_iff.mpr hy))
  · rintro (rfl | ⟨hx, hy⟩)
    · rfl
    · rw [value_eq_zero_iff.mpr hx, value_eq_zero_iff.mpr hy]

/-! ## Equality -/

/-- **Numbers compare equal if they denote one number.** -/
theorem same_iff_value_eq : x.same y = true ↔ x.value = y.value := by
  rw [value_eq_iff, same, Bool.and_eq_true, Bool.or_eq_true, beq_iff_eq, beq_iff_eq]
  constructor
  · rintro ⟨rank, negative | zero⟩
    · exact .inl (eq_of_negative_of_rank negative rank)
    · exact .inr ⟨zero, isZero_iff.mpr (rank ▸ isZero_iff.mp zero)⟩
  · rintro (rfl | ⟨hx, hy⟩)
    · exact ⟨rfl, .inl rfl⟩
    · exact ⟨(isZero_iff.mp hx).trans (isZero_iff.mp hy).symm, .inr hx⟩

/-- A number with a positive sign if it is zero is the number. -/
theorem value_unsignedZero (x : Binary64) : x.unsignedZero.value = x.value := by
  rw [unsignedZero]
  split
  · next zero => exact value_eq_iff.mpr (.inr ⟨rfl, zero⟩)
  · rfl

/-- **Numbers are identical, once zeros are positive, if they denote one number.** -/
theorem unsignedZero_eq_iff_value_eq : x.unsignedZero = y.unsignedZero ↔ x.value = y.value := by
  constructor
  · intro same
    rw [← value_unsignedZero x, same, value_unsignedZero]
  · rw [value_eq_iff]
    rintro (rfl | ⟨hx, hy⟩)
    · rfl
    · rw [unsignedZero, if_pos hx, unsignedZero, if_pos hy]

theorem unsignedZero_unsignedZero (x : Binary64) : x.unsignedZero.unsignedZero = x.unsignedZero :=
  unsignedZero_eq_iff_value_eq.mpr x.value_unsignedZero

end MarketStream.Binary64
