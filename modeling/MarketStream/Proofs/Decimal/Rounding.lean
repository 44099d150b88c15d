import Mathlib.Tactic.Linarith
import Mathlib.Tactic.Ring
import MarketStream.Decimal.Binary64

/-!
# Rounding to the nearest number

The rank nearest to a fraction is found by skipping as many binades as leave the significand at most
53 bits, and rounding what is left. How many binades that is depends on the value of the fraction
only, so equal fractions have one nearest rank. And a fraction that differs from a number by half of
one part in `10 ^ 16` at the most has that number as its nearest.

* `round_near`, `round_eq_of_near` — rounding a fraction to a whole number;
* `IsScale`, `nearestRank_of_isScale` — how many binades are skipped;
* `nearestRank_congr`, `nearest?_congr` — the nearest number depends on the value only;
* `nearestRank_of_close` — close fractions round to the number.
-/

namespace MarketStream

namespace Halfway

/-- A fraction is rounded down if what is left is no more than a half, and up if it is no less. -/
theorem round_cases (h : Halfway) (n d : Nat) :
    h.round n d = n / d ∧ 2 * (n % d) ≤ d ∨ h.round n d = n / d + 1 ∧ d ≤ 2 * (n % d) := by
  rw [round.eq_def]
  dsimp only
  split
  · next low => exact .inl ⟨rfl, low.le⟩
  · next notLow =>
    split
    · next high => exact .inr ⟨rfl, high.le⟩
    · cases h with
      | even =>
        rcases Nat.mod_two_eq_zero_or_one (n / d) with even | odd
        · exact .inl ⟨by rw [even, Nat.add_zero], by omega⟩
        · exact .inr ⟨by rw [odd], by omega⟩
      | away => exact .inr ⟨rfl, by omega⟩

/-- A fraction is rounded by a half at most. -/
theorem round_near (h : Halfway) (n : Nat) {d : Nat} (pos : 0 < d) :
    2 * n ≤ (2 * h.round n d + 1) * d ∧ 2 * h.round n d * d ≤ 2 * n + d := by
  have split := Nat.div_add_mod n d
  have small := Nat.mod_lt n pos
  have nonneg := Nat.zero_le (n % d)
  rcases h.round_cases n d with ⟨eq, left⟩ | ⟨eq, left⟩
  · rw [eq]
    refine ⟨?_, ?_⟩ <;> linarith
  · rw [eq]
    refine ⟨?_, ?_⟩ <;> linarith

/-- A fraction less than a half away from a whole number is rounded to it. -/
theorem round_eq_of_near (h : Halfway) {n d m : Nat} (above : 2 * n < (2 * m + 1) * d)
    (below : 2 * m * d < 2 * n + d) : h.round n d = m := by
  have pos : 0 < d := Nat.pos_of_mul_pos_left (Nat.zero_lt_of_lt above)
  obtain ⟨upper, lower⟩ := h.round_near n pos
  generalize h.round n d = k at upper lower ⊢
  have up : 2 * m < 2 * k + 2 := by
    refine Nat.lt_of_mul_lt_mul_right (a := d) ?_
    linarith
  have down : 2 * k < 2 * m + 2 := by
    refine Nat.lt_of_mul_lt_mul_right (a := d) ?_
    linarith
  omega

/-- Expanding a fraction does not change what it is rounded to. -/
theorem round_mul_right (h : Halfway) (n d : Nat) {c : Nat} (pos : 0 < c) :
    h.round (n * c) (d * c) = h.round n d := by
  have less (a b : Nat) : a * c < b * c ↔ a < b := Nat.mul_lt_mul_right pos
  simp only [round, Nat.mul_div_mul_right n d pos, Nat.mul_mod_mul_right, ← Nat.mul_assoc, less]

end Halfway

namespace Binary64

/-- The least positive magnitude is two to the power of minus this. -/
def lowest : Nat := 1074

/-- How many times the least positive magnitude goes into one. -/
def parts : Nat := 2 ^ lowest

theorem shiftLeft_lowest (n : Nat) : n <<< 1074 = n * parts := Nat.shiftLeft_eq n lowest

/-! ## How many binades are skipped -/

/-- With `s` binades skipped the significand of `n / d` has 53 bits, or fewer if none are. -/
structure IsScale (n d s : Nat) : Prop where
  /-- It has no more. -/
  fits : n * parts < 2 * binade * (d * 2 ^ s)
  /-- It has no fewer. -/
  full : s = 0 ∨ binade * (d * 2 ^ s) ≤ n * parts

section

variable {n d s t : Nat}

/-- There is only one such number of binades. -/
theorem IsScale.unique (hs : IsScale n d s) (ht : IsScale n d t) : s = t := by
  have le {s t : Nat} (hs : IsScale n d s) (ht : IsScale n d t) : s ≤ t := by
    rcases hs.full with rfl | full
    · exact Nat.zero_le t
    · have less : binade * d * 2 ^ s < binade * d * 2 ^ (t + 1) := by
        have fits := ht.fits
        rw [Nat.pow_succ]
        linarith
      have powers := Nat.lt_of_mul_lt_mul_left less
      exact Nat.le_of_lt_succ ((Nat.pow_lt_pow_iff_right (by decide)).mp powers)
  exact Nat.le_antisymm (le hs ht) (le ht hs)

/-- The scale does not depend on the unit. -/
theorem IsScale.mul_right (h : IsScale n d s) {c : Nat} (pos : 0 < c) :
    IsScale (n * c) (d * c) s := by
  refine ⟨?_, ?_⟩
  · have fits := Nat.mul_lt_mul_of_pos_right h.fits pos
    linarith
  · refine h.full.imp_right fun full => ?_
    have full := Nat.mul_le_mul_right c full
    linarith

/-- The binary logarithms of a fraction tell the scale up to one. -/
theorem guess_bounds (hn : 0 < n) (hd : 0 < d) :
    n * parts < 2 * binade * (d * 2 ^ (Nat.log2 n + 1021 - Nat.log2 d + 1)) ∧
      (Nat.log2 n + 1021 - Nat.log2 d = 0 ∨
        binade * (d * 2 ^ (Nat.log2 n + 1021 - Nat.log2 d)) ≤ n * parts) := by
  have n_lower := Nat.log2_self_le hn.ne'
  have n_upper := Nat.lt_log2_self (n := n)
  have d_lower := Nat.log2_self_le hd.ne'
  have d_upper := Nat.lt_log2_self (n := d)
  generalize n.log2 = a at *
  generalize d.log2 = b at *
  have low : lowest = 1074 := rfl
  refine ⟨?_, ?_⟩
  · generalize hg : a + 1021 - b + 1 = g
    calc n * parts
      _ < 2 ^ (a + 1) * 2 ^ lowest := Nat.mul_lt_mul_of_pos_right n_upper (Nat.two_pow_pos lowest)
      _ = 2 ^ (a + 1 + lowest) := (Nat.pow_add ..).symm
      _ ≤ 2 ^ (53 + (b + g)) := Nat.pow_le_pow_right (by decide) (by omega)
      _ = 2 * binade * (2 ^ b * 2 ^ g) := by rw [Nat.pow_add, Nat.pow_add]; rfl
      _ ≤ 2 * binade * (d * 2 ^ g) := Nat.mul_le_mul_left _ (Nat.mul_le_mul_right _ d_lower)
  · generalize hg : a + 1021 - b = g
    rcases g.eq_zero_or_pos with zero | pos
    · exact .inl zero
    · refine .inr ?_
      calc binade * (d * 2 ^ g)
        _ ≤ binade * (2 ^ (b + 1) * 2 ^ g) :=
          Nat.mul_le_mul_left _ (Nat.mul_le_mul_right _ d_upper.le)
        _ = 2 ^ (52 + (b + 1 + g)) := by rw [Nat.pow_add 2 52, Nat.pow_add 2 (b + 1)]; rfl
        _ = 2 ^ (a + lowest) := by congr 1; omega
        _ = 2 ^ a * 2 ^ lowest := Nat.pow_add ..
        _ ≤ n * parts := Nat.mul_le_mul_right _ n_lower

theorem exists_isScale (hn : 0 < n) (hd : 0 < d) :
    ∃ s, IsScale n d s ∧
      nearestRank n d = s * binade + Halfway.even.round (n * parts) (d * 2 ^ s) := by
  obtain ⟨enough, full⟩ := guess_bounds hn hd
  have fits_iff (s : Nat) : (n <<< 1074) / (d <<< s) < 2 * binade
      ↔ n * parts < 2 * binade * (d * 2 ^ s) := by
    rw [shiftLeft_lowest, Nat.shiftLeft_eq,
      Nat.div_lt_iff_lt_mul (Nat.mul_pos hd (Nat.two_pow_pos s))]
  rw [nearestRank]
  generalize Nat.log2 n + 1021 - Nat.log2 d = guess at enough full ⊢
  by_cases fits : n * parts < 2 * binade * (d * 2 ^ guess)
  · refine ⟨guess, ⟨fits, full⟩, ?_⟩
    rw [if_pos ((fits_iff guess).mpr fits), shiftLeft_lowest, Nat.shiftLeft_eq]
  · refine ⟨guess + 1, ⟨enough, .inr ?_⟩, ?_⟩
    · rw [Nat.pow_succ]
      linarith
    · rw [if_neg (mt (fits_iff guess).mp fits), shiftLeft_lowest, Nat.shiftLeft_eq]

/-- The nearest rank, once the number of binades to skip is known. -/
theorem nearestRank_of_isScale (hn : 0 < n) (hd : 0 < d) (h : IsScale n d s) :
    nearestRank n d = s * binade + Halfway.even.round (n * parts) (d * 2 ^ s) := by
  obtain ⟨t, ht, eq⟩ := exists_isScale hn hd
  rw [eq, ht.unique h]

/-- Expanding a fraction does not change the nearest rank. -/
theorem nearestRank_mul_right (hn : 0 < n) (hd : 0 < d) {c : Nat} (pos : 0 < c) :
    nearestRank (n * c) (d * c) = nearestRank n d := by
  obtain ⟨s, h, eq⟩ := exists_isScale hn hd
  rw [eq, nearestRank_of_isScale (Nat.mul_pos hn pos) (Nat.mul_pos hd pos) (h.mul_right pos),
    Nat.mul_right_comm, Nat.mul_right_comm d, Halfway.even.round_mul_right _ _ pos]

end

/-- The nearest rank depends on the value of the fraction only. -/
theorem nearestRank_congr {n d n' d' : Nat} (hn : 0 < n) (hd : 0 < d) (hn' : 0 < n')
    (hd' : 0 < d') (same : n * d' = n' * d) : nearestRank n d = nearestRank n' d' := by
  rw [← nearestRank_mul_right hn hd hd', same, Nat.mul_comm d d', nearestRank_mul_right hn' hd' hd]

/-- The nearest number depends on the value of the fraction only. -/
theorem nearest?_congr (negative : Bool) {n d n' d' : Nat} (hd : 0 < d) (hd' : 0 < d')
    (same : n * d' = n' * d) : nearest? negative n d = nearest? negative n' d' := by
  have zero_iff : n = 0 ↔ n' = 0 := by
    have product := congrArg (· = 0) same
    simpa [hd.ne', hd'.ne'] using product
  rw [nearest?, nearest?]
  by_cases zero : n = 0
  · rw [if_pos zero, if_pos (zero_iff.mp zero)]
  · have zero' : n' ≠ 0 := mt zero_iff.mpr zero
    rw [if_neg zero, if_neg zero', nearestRank_congr (Nat.pos_of_ne_zero zero) hd
      (Nat.pos_of_ne_zero zero') hd' same]

/-! ## The magnitude of a number -/

section

variable (x : Binary64)

theorem scale_le : x.scale ≤ 2045 := by
  have below : x.rank / binade < 2047 := Nat.div_lt_of_lt_mul (Nat.mul_comm 2047 _ ▸ x.rank_lt)
  rw [scale]
  omega

/-- A rank is made of the binades below it and the significand. -/
theorem rank_eq : x.rank = x.scale * binade + x.significand := by
  have le : x.scale * binade ≤ x.rank := by
    refine Nat.le_trans (Nat.mul_le_mul_right binade (Nat.sub_le _ 1)) ?_
    exact Nat.div_mul_le_self x.rank binade
  rw [significand, Nat.add_sub_cancel' le]

theorem significand_lt : x.significand < 2 * binade := by
  have upper : x.rank < (x.rank / binade + 1) * binade :=
    Nat.lt_mul_of_div_lt (Nat.lt_succ_self _) (Nat.two_pow_pos 52)
  have twice : (x.rank / binade + 1) * binade ≤ (x.scale + 2) * binade :=
    Nat.mul_le_mul_right binade (by rw [scale]; omega)
  have split := rank_eq x
  linarith

/-- Above the lowest binades a significand has all of its 53 bits. -/
theorem binade_le_significand (above : x.scale ≠ 0) : binade ≤ x.significand := by
  have quotient : x.rank / binade = x.scale + 1 := by
    rw [scale] at above ⊢
    omega
  have lower : (x.rank / binade) * binade ≤ x.rank := Nat.div_mul_le_self x.rank binade
  have split := rank_eq x
  rw [quotient] at lower
  linarith

theorem significand_pos (pos : 0 < x.rank) : 0 < x.significand := by
  by_cases lowest : x.scale = 0
  · have split := rank_eq x
    rw [lowest, Nat.zero_mul, Nat.zero_add] at split
    rwa [← split]
  · exact Nat.lt_of_lt_of_le (Nat.two_pow_pos 52) (binade_le_significand x lowest)

theorem numerator_eq : x.numerator = x.significand * 2 ^ (x.scale - lowest) :=
  Nat.shiftLeft_eq _ (x.scale - lowest)

theorem denominator_eq : x.denominator = 2 ^ (lowest - x.scale) :=
  Nat.one_shiftLeft (lowest - x.scale)

theorem denominator_pos : 0 < x.denominator := by
  rw [denominator_eq]
  exact Nat.two_pow_pos _

theorem numerator_pos (pos : 0 < x.rank) : 0 < x.numerator := by
  rw [numerator_eq]
  exact Nat.mul_pos (significand_pos x pos) (Nat.two_pow_pos _)

theorem numerator_of_zero (zero : x.rank = 0) : x.numerator = 0 := by
  have significand : x.significand = 0 := by rw [significand, zero, Nat.zero_sub]
  rw [numerator_eq, significand, Nat.zero_mul]

/-- A magnitude is its significand times the least magnitude of its binade. -/
theorem numerator_mul_parts :
    x.numerator * parts = x.significand * 2 ^ x.scale * x.denominator := by
  have exponent : x.scale - lowest + lowest = x.scale + (lowest - x.scale) := by omega
  rw [numerator_eq, denominator_eq, parts, Nat.mul_assoc, Nat.mul_assoc, ← Nat.pow_add,
    ← Nat.pow_add, exponent]

end

/-! ## Close fractions -/

/-- The least number of seventeen digits. -/
def fine : Nat := 10 ^ 16

/-- One number differs from another by half of one part in `10 ^ 16` of it at the most. -/
structure IsClose (a b : Nat) : Prop where
  /-- It is not too large. -/
  above : 2 * fine * a ≤ (2 * fine + 1) * b
  /-- It is not too small. -/
  below : 2 * fine * b ≤ 2 * fine * a + b

/-- How close numbers are does not depend on the unit. -/
theorem isClose_mul_right {a b c : Nat} (pos : 0 < c) : IsClose (a * c) (b * c) ↔ IsClose a b := by
  refine ⟨fun h => ⟨?_, ?_⟩, fun h => ⟨?_, ?_⟩⟩
  · refine Nat.le_of_mul_le_mul_right ?_ pos
    linarith [h.above]
  · refine Nat.le_of_mul_le_mul_right ?_ pos
    linarith [h.below]
  · linarith [Nat.mul_le_mul_right c h.above]
  · linarith [Nat.mul_le_mul_right c h.below]

/-- What is close to fewer than `10 ^ 16` units is less than half a unit away from them. -/
theorem IsClose.near {n d m : Nat} (h : IsClose n (m * d)) (pos : 0 < d) (small : m < fine) :
    2 * n < (2 * m + 1) * d ∧ 2 * m * d < 2 * n + d := by
  obtain ⟨above, below⟩ := h
  have less : m * d < fine * d := Nat.mul_lt_mul_of_pos_right small pos
  have cancel {a b : Nat} (h : fine * a < fine * b) : a < b := Nat.lt_of_mul_lt_mul_left h
  refine ⟨cancel ?_, cancel ?_⟩ <;> linarith

section

variable {x : Binary64} {n d : Nat}

/-- What is close to a magnitude is close to the significand in units of the binade. -/
theorem IsClose.units (h : IsClose (n * x.denominator) (x.numerator * d)) :
    IsClose (n * parts) (x.significand * (d * 2 ^ x.scale)) := by
  have whole : x.numerator * d * parts = x.significand * (d * 2 ^ x.scale) * x.denominator := by
    rw [Nat.mul_right_comm, numerator_mul_parts x]
    ring
  rw [← isClose_mul_right (denominator_pos x), ← whole, Nat.mul_right_comm]
  exact (isClose_mul_right (Nat.two_pow_pos lowest)).mpr h

theorem two_binades_lt_fine : 2 * binade < fine := by decide

/-- **Close fractions round to the number.** -/
theorem nearestRank_of_close (hn : 0 < n) (hd : 0 < d)
    (close : IsClose (n * x.denominator) (x.numerator * d)) : nearestRank n d = x.rank := by
  have close := close.units
  have small := significand_lt x
  have unit : 0 < d * 2 ^ x.scale := Nat.mul_pos hd (Nat.two_pow_pos _)
  obtain ⟨upper, lower⟩ := close.near unit (small.trans two_binades_lt_fine)
  -- The fraction lies in the binade of the number, or just below it.
  by_cases inside : x.scale = 0 ∨ binade * (d * 2 ^ x.scale) ≤ n * parts
  · have fits : n * parts < 2 * binade * (d * 2 ^ x.scale) := by
      have := Nat.mul_le_mul_right (d * 2 ^ x.scale) (Nat.succ_le_of_lt small)
      linarith
    rw [nearestRank_of_isScale hn hd ⟨fits, inside⟩,
      Halfway.even.round_eq_of_near upper lower, ← rank_eq x]
  · obtain ⟨notLowest, outside⟩ := not_or.mp inside
    have least := binade_le_significand x notLowest
    -- Then the number is the first one of its binade.
    have first : x.significand = binade := by
      refine Nat.le_antisymm (Nat.le_of_lt_succ ?_) least
      have : 2 * x.significand < 2 * binade + 1 := by
        refine Nat.lt_of_mul_lt_mul_right (a := d * 2 ^ x.scale) ?_
        linarith
      omega
    obtain ⟨t, ht⟩ := Nat.exists_eq_succ_of_ne_zero notLowest
    have half : 0 < d * 2 ^ t := Nat.mul_pos hd (Nat.two_pow_pos _)
    have wide : binade * (d * 2 ^ x.scale) = 2 * binade * (d * 2 ^ t) := by
      rw [ht, Nat.succ_eq_add_one, Nat.pow_succ]
      ring
    rw [first, wide] at close
    rw [wide] at outside
    obtain ⟨upper, lower⟩ := close.near half two_binades_lt_fine
    have scale : IsScale n d t := by
      refine ⟨Nat.not_le.mp outside, .inr ?_⟩
      have : 1 * (d * 2 ^ t) ≤ binade * (d * 2 ^ t) := Nat.mul_le_mul_right _ (by decide)
      linarith
    rw [nearestRank_of_isScale hn hd scale, Halfway.even.round_eq_of_near upper lower, rank_eq x,
      first, Nat.two_mul, ht, Nat.succ_eq_add_one, Nat.add_one_mul, Nat.add_assoc]

end

end Binary64

end MarketStream
