import Mathlib.Tactic.Linarith
import Mathlib.Tactic.Ring
import MarketStream.Decimal.Shortest
import MarketStream.Proofs.Decimal.Rounding
import MarketStream.Proofs.Text.Numeral

/-!
# Shortest decimals denote their numbers

Seventeen digits are enough. On the grid on which a magnitude has seventeen digits before the point,
the nearest point differs from it by half a unit at most, which is close enough for reading back. So
the search for the shortest decimal comes to an end, and what it ends with has been read back.
Trailing zeros do not matter, since they only move the exponent.

* `tens` — powers of ten as fractions;
* `isPoint_pointOf` — how many digits a magnitude has before the point;
* `ofDecimal?_mul_pow` — zeros at the end of the digits of a decimal;
* `readsBack_of_close`, `exists_neighbour?` — seventeen digits are enough;
* `ofDecimal?_shortest` — the shortest decimal denotes the number.
-/

namespace MarketStream

namespace Binary64

/-! ## Powers of ten -/

/-- The power of ten `10 ^ e`, if it is a whole number, and one otherwise. Any power `10 ^ e` is the
fraction `tens e / tens (-e)`. -/
def tens (e : Int) : Nat := 10 ^ e.toNat

theorem tens_pos (e : Int) : 0 < tens e := Nat.pow_pos (by decide)

theorem tens_eq {e : Int} {k : Nat} (h : e.toNat = k) : tens e = 10 ^ k := by
  rw [tens, h]

/-- How the fractions of two powers of ten go together. -/
theorem tens_add (u : Int) (k : Nat) :
    tens (u + k) * tens (-u) = 10 ^ k * tens u * tens (-(u + k)) := by
  simp only [tens, ← Nat.pow_add]
  congr 1
  omega

theorem inUnits_eq (n d : Nat) (u : Int) : inUnits n d u = (n * tens (-u), d * tens u) := by
  rw [inUnits]
  split
  · rw [tens_eq (e := -u) (k := 0) (by omega), Nat.pow_zero, Nat.mul_one]
    rfl
  · rw [tens_eq (e := u) (k := 0) (by omega), Nat.pow_zero, Nat.mul_one]
    rfl

/-- The fraction `n / d` has `p` digits before the point. -/
structure IsPoint (n d : Nat) (p : Int) : Prop where
  /-- It has no fewer. -/
  lower : d * tens (p - 1) ≤ n * tens (-(p - 1))
  /-- It has no more. -/
  upper : n * tens (-p) < d * tens p

theorem isPoint_pointOf {n d : Nat} (hn : 0 < n) (hd : 0 < d) : IsPoint n d (pointOf n d) := by
  rw [pointOf]
  split
  · next le =>
    obtain ⟨l, length, lower, upper⟩ := Text.length_natural_bounds (Nat.div_pos le hd)
    rw [length]
    refine ⟨?_, ?_⟩
    · rw [tens_eq (k := l) (by omega), tens_eq (k := 0) (by omega), Nat.pow_zero, Nat.mul_one,
        Nat.mul_comm]
      exact (Nat.le_div_iff_mul_le hd).mp lower
    · rw [tens_eq (k := 0) (by omega), tens_eq (k := l + 1) (by omega), Nat.pow_zero, Nat.mul_one,
        Nat.mul_comm d]
      exact (Nat.div_lt_iff_lt_mul hd).mp upper
  · next lt =>
    have some_digit : 0 < (d - 1) / n := Nat.div_pos (by omega) hn
    obtain ⟨l, length, lower, upper⟩ := Text.length_natural_bounds some_digit
    have lower := (Nat.le_div_iff_mul_le hn).mp lower
    have upper := (Nat.div_lt_iff_lt_mul hn).mp upper
    rw [length]
    refine ⟨?_, ?_⟩
    · rw [tens_eq (k := 0) (by omega), tens_eq (k := l + 1) (by omega), Nat.pow_zero, Nat.mul_one,
        Nat.mul_comm n]
      omega
    · rw [tens_eq (k := l) (by omega), tens_eq (k := 0) (by omega), Nat.pow_zero, Nat.mul_one,
        Nat.mul_comm n]
      omega

/-- In units of the seventeenth digit, a magnitude has seventeen digits before the point. -/
theorem IsPoint.units {n d : Nat} {p : Int} (h : IsPoint n d p) :
    fine * (d * tens (p - 17)) ≤ n * tens (-(p - 17)) ∧
      n * tens (-(p - 17)) < 10 * fine * (d * tens (p - 17)) := by
  have first := tens_add (p - 17) 16
  have last := tens_add (p - 17) 17
  rw [show p - 17 + (16 : Nat) = p - 1 by omega] at first
  rw [show p - 17 + (17 : Nat) = p by omega] at last
  refine ⟨Nat.le_of_mul_le_mul_right ?_ (tens_pos (-(p - 1))),
    Nat.lt_of_mul_lt_mul_right (a := tens (-p)) ?_⟩
  · calc fine * (d * tens (p - 17)) * tens (-(p - 1))
      _ = d * (10 ^ 16 * tens (p - 17) * tens (-(p - 1))) := by rw [fine]; ring
      _ = d * tens (p - 1) * tens (-(p - 17)) := by rw [← first, Nat.mul_assoc]
      _ ≤ n * tens (-(p - 1)) * tens (-(p - 17)) := Nat.mul_le_mul_right _ h.lower
      _ = n * tens (-(p - 17)) * tens (-(p - 1)) := Nat.mul_right_comm ..
  · calc n * tens (-(p - 17)) * tens (-p)
      _ = n * tens (-p) * tens (-(p - 17)) := Nat.mul_right_comm ..
      _ < d * tens p * tens (-(p - 17)) := Nat.mul_lt_mul_of_pos_right h.upper (tens_pos _)
      _ = d * (10 ^ 17 * tens (p - 17) * tens (-p)) := by rw [← last, Nat.mul_assoc]
      _ = 10 * fine * (d * tens (p - 17)) * tens (-p) := by rw [fine]; ring

/-! ## Reading decimals -/

theorem ofDecimal?_of_place_lt {negative : Bool} {k : Nat} {u : Int}
    (h : k = 0 ∨ (Text.natural k).length + u < -330) :
    ofDecimal? negative k u = some ⟨negative, 0, by decide⟩ :=
  if_pos h

theorem ofDecimal?_of_place_gt {negative : Bool} {k : Nat} {u : Int} (pos : 0 < k)
    (h : 310 < (Text.natural k).length + u) : ofDecimal? negative k u = none := by
  have notLow : ¬ (k = 0 ∨ (Text.natural k).length + u < -330) := by omega
  exact (if_neg notLow).trans (if_pos h)

theorem ofDecimal?_of_place {negative : Bool} {k : Nat} {u : Int} (pos : 0 < k)
    (low : -330 ≤ (Text.natural k).length + u) (high : (Text.natural k).length + u ≤ 310) :
    ofDecimal? negative k u = nearest? negative (k * tens u) (tens (-u)) := by
  have notLow : ¬ (k = 0 ∨ (Text.natural k).length + u < -330) := by omega
  have notHigh : ¬ 310 < (Text.natural k).length + u := by omega
  refine (if_neg notLow).trans ((if_neg notHigh).trans ?_)
  split
  · rw [tens_eq (e := -u) (k := 0) (by omega)]
    rfl
  · rw [tens_eq (e := u) (k := 0) (by omega), Nat.pow_zero, Nat.mul_one]
    rfl

/-- Zeros at the end of the digits move the exponent. -/
theorem ofDecimal?_mul_pow (negative : Bool) (k z : Nat) (u : Int) :
    ofDecimal? negative (k * 10 ^ z) u = ofDecimal? negative k (u + z) := by
  rcases k.eq_zero_or_pos with rfl | pos
  · rw [Nat.zero_mul, ofDecimal?_of_place_lt (.inl rfl), ofDecimal?_of_place_lt (.inl rfl)]
  · have long : 0 < k * 10 ^ z := Nat.mul_pos pos (Nat.pow_pos (by decide))
    have place : ((Text.natural (k * 10 ^ z)).length : Int) + u
        = (Text.natural k).length + (u + z) := by
      rw [Text.natural_mul_pow pos, List.length_append, List.length_replicate]
      omega
    by_cases low : (Text.natural k).length + (u + z) < -330
    · rw [ofDecimal?_of_place_lt (.inr low), ofDecimal?_of_place_lt (.inr (place ▸ low))]
    · by_cases high : 310 < (Text.natural k).length + (u + z)
      · rw [ofDecimal?_of_place_gt pos high, ofDecimal?_of_place_gt long (place ▸ high)]
      · rw [ofDecimal?_of_place pos (by omega) (by omega),
          ofDecimal?_of_place long (by omega) (by omega)]
        refine nearest?_congr negative (tens_pos _) (tens_pos _) ?_
        rw [Nat.mul_assoc k, Nat.mul_assoc k, Nat.mul_assoc k, tens_add]

/-- The sign does not matter for the magnitude. -/
theorem ofDecimal?_eq_map (negative : Bool) (k : Nat) (u : Int) :
    ofDecimal? negative k u
      = (ofDecimal? false k u).map fun x => ⟨negative, x.rank, x.rank_lt⟩ := by
  have ofRank (rank : Nat) : ofRank? negative rank
      = (ofRank? false rank).map fun x => ⟨negative, x.rank, x.rank_lt⟩ := by
    rw [ofRank?, ofRank?]
    split <;> rfl
  simp only [ofDecimal?, nearest?, ofRank]
  split
  · rfl
  · split
    · rfl
    · split <;> rfl

/-- A decimal that has been read back denotes the number. -/
theorem ofDecimal?_of_readsBack {x : Binary64} {k : Nat} {u : Int}
    (h : x.readsBack k u = true) : ofDecimal? x.negative k u = some x := by
  obtain ⟨y, read, rank⟩ := (Option.any_eq_true _ _).mp h
  rw [ofDecimal?_eq_map, read, Option.map_some]
  congr 1
  obtain ⟨negative, rank', rank_lt⟩ := x
  obtain rfl := beq_iff_eq.mp rank
  rfl

/-! ## Seventeen digits are enough -/

section

variable {x : Binary64}

/-- Magnitudes are finite, and have few zeros after the point. -/
theorem pointOf_bounds (x : Binary64) :
    -323 ≤ pointOf x.numerator x.denominator ∧ pointOf x.numerator x.denominator ≤ 309 := by
  have huge : 2 * binade * 2 ^ (2045 - lowest) ≤ 10 ^ 309 := by decide +kernel
  have tiny : 2 ^ lowest ≤ 10 ^ 324 := by decide +kernel
  have numerator : x.numerator < 10 ^ 309 := by
    have scale : x.scale - lowest ≤ 2045 - lowest := Nat.sub_le_sub_right (scale_le x) lowest
    rw [numerator_eq]
    refine Nat.lt_of_lt_of_le ?_ huge
    refine Nat.lt_of_lt_of_le ?_ (Nat.mul_le_mul_left _ (Nat.pow_le_pow_right (by decide) scale))
    exact Nat.mul_lt_mul_of_pos_right (significand_lt x) (Nat.two_pow_pos _)
  have denominator : x.denominator ≤ 10 ^ 324 := by
    rw [denominator_eq]
    exact (Nat.pow_le_pow_right (by decide) (Nat.sub_le ..)).trans tiny
  rw [pointOf]
  split
  · have digits : (Text.natural (x.numerator / x.denominator)).length ≤ 309 := by
      refine (Text.length_natural_le_iff (by decide)).mpr ?_
      have quotient := Nat.div_le_self x.numerator x.denominator
      omega
    omega
  · have digits : (Text.natural ((x.denominator - 1) / x.numerator)).length ≤ 324 := by
      refine (Text.length_natural_le_iff (by decide)).mpr ?_
      have pos := denominator_pos x
      have quotient := Nat.div_le_self (x.denominator - 1) x.numerator
      omega
    omega

theorem readsBack_of_close {k : Nat} {u : Int} (pos : 0 < k)
    (low : -330 ≤ (Text.natural k).length + u) (high : (Text.natural k).length + u ≤ 310)
    (close : IsClose (k * tens u * x.denominator) (x.numerator * tens (-u))) :
    x.readsBack k u = true := by
  have units : 0 < k * tens u := Nat.mul_pos pos (tens_pos u)
  rw [readsBack, ofDecimal?_of_place pos low high, nearest?, if_neg units.ne',
    nearestRank_of_close units (tens_pos _) close, ofRank?, dif_pos x.rank_lt]
  exact beq_self_eq_true x.rank

/-- A neighbour that is found has been read back. -/
theorem readsBack_of_neighbour? {h : Halfway} {u : Int} {k : Nat}
    (found : neighbour? h x u = some k) : x.readsBack k u = true := by
  rw [neighbour?] at found
  generalize inUnits x.numerator x.denominator u = units at found
  obtain ⟨n, d⟩ := units
  dsimp only at found
  generalize low : x.readsBack (n / d) u = a, high : x.readsBack (n / d + 1) u = b at found
  cases a with
  | true =>
    cases b with
    | true =>
      obtain rfl := Option.some.inj found
      rcases h.round_cases n d with ⟨eq, -⟩ | ⟨eq, -⟩
      · rwa [eq]
      · rwa [eq]
    | false =>
      obtain rfl := Option.some.inj found
      exact low
  | false =>
    cases b with
    | true =>
      obtain rfl := Option.some.inj found
      exact high
    | false => cases found

/-- A neighbour is found if the nearest point reads back. -/
theorem exists_neighbour? {h : Halfway} {u : Int}
    (reads : x.readsBack (h.round (inUnits x.numerator x.denominator u).1
      (inUnits x.numerator x.denominator u).2) u = true) : ∃ k, neighbour? h x u = some k := by
  rw [neighbour?]
  generalize inUnits x.numerator x.denominator u = units at reads ⊢
  obtain ⟨n, d⟩ := units
  dsimp only at reads ⊢
  generalize low : x.readsBack (n / d) u = a, high : x.readsBack (n / d + 1) u = b
  cases a with
  | true => cases b <;> exact ⟨_, rfl⟩
  | false =>
    cases b with
    | true => exact ⟨_, rfl⟩
    | false =>
      rcases h.round_cases n d with ⟨eq, -⟩ | ⟨eq, -⟩
      · rw [eq, low] at reads
        cases reads
      · rw [eq, high] at reads
        cases reads

/-- The nearest point on the grid of the seventeenth digit reads back. -/
theorem IsPoint.readsBack {p : Int} (point : IsPoint x.numerator x.denominator p)
    (low : -330 ≤ p) (high : p ≤ 309) (h : Halfway) :
    x.readsBack (h.round (x.numerator * tens (-(p - 17))) (x.denominator * tens (p - 17)))
      (p - 17) = true := by
  obtain ⟨lower, upper⟩ := point.units
  have unit : 0 < x.denominator * tens (p - 17) :=
    Nat.mul_pos (denominator_pos x) (tens_pos _)
  obtain ⟨above, below⟩ := h.round_near (x.numerator * tens (-(p - 17))) unit
  generalize h.round _ _ = k at above below ⊢
  have close : IsClose (k * tens (p - 17) * x.denominator) (x.numerator * tens (-(p - 17))) := by
    have above := Nat.mul_le_mul_left fine above
    have below := Nat.mul_le_mul_left fine below
    refine ⟨?_, ?_⟩ <;> linarith
  have cancel {a b : Nat} (h : a * (x.denominator * tens (p - 17))
      < b * (x.denominator * tens (p - 17))) : a < b := Nat.lt_of_mul_lt_mul_right h
  have least : 10 ^ 16 ≤ k := by
    have : 2 * fine < 2 * k + 2 := by
      apply cancel
      linarith
    rw [fine] at this
    omega
  have most : k < 10 ^ 18 := by
    have : 2 * k < 20 * fine + 2 := by
      apply cancel
      linarith
    rw [fine] at this
    omega
  have digits : 16 < (Text.natural k).length := by
    rw [← Nat.not_le, Text.length_natural_le_iff (by decide)]
    exact Nat.not_lt.mpr least
  have digits' : (Text.natural k).length ≤ 18 := (Text.length_natural_le_iff (by decide)).mpr most
  exact readsBack_of_close (Nat.lt_of_lt_of_le (by decide) least) (by omega) (by omega) close

/-- The search ends with a decimal that has been read back. -/
theorem exists_shortestFrom {h : Halfway} {p : Int} (last : ∃ k, neighbour? h x (p - 17) = some k)
    {count used : Nat} (digits : used + count = 16) :
    ∃ k u, shortestFrom h x p (count + 1) used = some (Decimal.ofNat k u) ∧
      x.readsBack k u = true := by
  induction count generalizing used with
  | zero =>
    obtain ⟨k, found⟩ := last
    rw [show p - 17 = p - (used + 1) by omega] at found
    refine ⟨k, p - (used + 1), ?_, readsBack_of_neighbour? found⟩
    rw [shortestFrom, found]
  | succ count ih =>
    rw [shortestFrom]
    cases found : neighbour? h x (p - (used + 1)) with
    | some k => exact ⟨k, _, rfl, readsBack_of_neighbour? found⟩
    | none => exact ih (by omega)

end

end Binary64

/-! ## What the shortest decimal denotes -/

namespace Decimal

/-- Stripping the zeros at the end of a whole number. -/
theorem exists_strip {k : Nat} (pos : 0 < k) :
    ∃ n z, 0 < n ∧ k = n * 10 ^ z ∧
      ((Text.natural k).reverse.dropWhile (· == '0')).reverse = Text.natural n := by
  induction k using Nat.strongRecOn with
  | ind k ih =>
    by_cases zero : k % 10 = 0
    · have tenth : k / 10 * 10 = k := Nat.div_mul_cancel (Nat.dvd_of_mod_eq_zero zero)
      have pos' : 0 < k / 10 := by omega
      obtain ⟨n, z, hn, eq, strip⟩ := ih (k / 10) (by omega) pos'
      refine ⟨n, z + 1, hn, ?_, ?_⟩
      · rw [Nat.pow_succ, ← Nat.mul_assoc, ← eq, tenth]
      · rw [← tenth, Text.natural_mul_ten pos', List.reverse_append]
        exact strip
    · obtain ⟨front, last⟩ := Text.exists_natural_last k
      have notZero : (k % 10).digitChar ≠ '0' :=
        Text.digitChar_ne_zero _ (Nat.mod_lt k (by decide)) (Nat.pos_of_ne_zero zero)
      refine ⟨k, 0, pos, (Nat.mul_one k).symm, ?_⟩
      rw [last, List.reverse_append, List.reverse_singleton, List.singleton_append,
        List.dropWhile_cons_of_neg (by simpa using notZero), List.reverse_cons,
        List.reverse_reverse]

/-- The decimal of a whole number, without the zeros at its end. -/
theorem exists_ofNat {k : Nat} (pos : 0 < k) (u : Int) :
    ∃ n z : Nat, 0 < n ∧ k = n * 10 ^ z ∧
      ofNat k u = ⟨Text.natural n, (Text.natural n).length + (u + z)⟩ := by
  obtain ⟨n, z, hn, eq, strip⟩ := exists_strip pos
  refine ⟨n, z, hn, eq, ?_⟩
  have digits : (Text.natural n).isEmpty = false :=
    List.isEmpty_eq_false_iff.mpr (Text.natural_ne_nil n)
  have length : ((Text.natural k).length : Int) + u = (Text.natural n).length + (u + z) := by
    rw [eq, Text.natural_mul_pow hn, List.length_append, List.length_replicate]
    omega
  rw [ofNat, strip, digits, length]
  rfl

end Decimal

namespace Binary64

/-- **The shortest decimal denotes the number.** -/
theorem ofDecimal?_shortest (h : Halfway) (x : Binary64) :
    ∃ (n : Nat) (e : Int), (n = 0 → e = 0) ∧
      x.shortest h = ⟨Text.natural n, (Text.natural n).length + e⟩ ∧
      ofDecimal? x.negative n e = some x := by
  by_cases zero : x.isZero = true
  · refine ⟨0, 0, fun _ => rfl, ?_, ?_⟩
    · rw [shortest, if_pos zero]
      rfl
    · obtain ⟨negative, rank, rank_lt⟩ := x
      obtain rfl : rank = 0 := beq_iff_eq.mp zero
      exact ofDecimal?_of_place_lt (.inl rfl)
  · have pos : 0 < x.rank := Nat.pos_of_ne_zero fun rank => zero (beq_iff_eq.mpr rank)
    have point := isPoint_pointOf (numerator_pos x pos) (denominator_pos x)
    obtain ⟨low, high⟩ := pointOf_bounds x
    have last : ∃ k, neighbour? h x (pointOf x.numerator x.denominator - 17) = some k := by
      refine exists_neighbour? ?_
      rw [inUnits_eq]
      exact point.readsBack (by omega) high h
    obtain ⟨k, u, found, reads⟩ := exists_shortestFrom last (Nat.zero_add 16)
    have digits := ofDecimal?_of_readsBack reads
    have some_digit : 0 < k := by
      refine Nat.pos_of_ne_zero fun none => ?_
      rw [ofDecimal?_of_place_lt (.inl none)] at digits
      rw [← Option.some.inj digits] at pos
      exact Nat.lt_irrefl 0 pos
    obtain ⟨n, z, hn, rfl, strip⟩ := Decimal.exists_ofNat some_digit u
    refine ⟨n, u + z, fun h => absurd h hn.ne', ?_, ?_⟩
    · rw [shortest, if_neg zero]
      dsimp only
      rw [found, Option.getD_some, strip]
    · rw [← ofDecimal?_mul_pow, digits]

end Binary64

end MarketStream
