import MarketStream.Decimal.Scaling
import MarketStream.Proofs.Decimal.Shortest

/-!
# Short decimals are read exactly

Of the steps in which a decimal is read, taking the number nearest to its digits changes nothing as
long as these fit 53 bits, and neither does taking the number nearest to a power of ten up to the
twenty-second. Then only the last step rounds, so what is read is the number nearest to the decimal.

* `takeDigits_of_fits` — digits that fit are all taken;
* `nearest?_of_eq` — a number is the nearest one to itself;
* `exists_exact`, `powerOfTen?_exact` — whole numbers of 53 bits, and small powers of ten;
* `scale?_of_short` — what is read of a short decimal.
-/

namespace MarketStream

/-- Digits only add to a number. -/
theorem le_ofDigitChars (n : Nat) (cs : List Char) : n ≤ Nat.ofDigitChars 10 cs n := by
  have power : 0 < 10 ^ cs.length := Nat.pow_pos (by decide)
  rw [Nat.ofDigitChars_eq_ofDigitChars_zero]
  exact (Nat.le_mul_of_pos_left n power).trans (Nat.le_add_right _ _)

/-- Digits that fit are all taken. -/
theorem takeDigits_of_fits {n : Nat} {cs : List Char}
    (fits : Nat.ofDigitChars 10 cs n < 0x10000000000000000) :
    takeDigits n cs = (Nat.ofDigitChars 10 cs n, []) := by
  induction cs generalizing n with
  | nil => rfl
  | cons c rest ih =>
    rw [Nat.ofDigitChars_cons] at fits ⊢
    rw [takeDigits, if_pos ((le_ofDigitChars _ rest).trans_lt fits), ih fits]

namespace Binary64

/-- A number is the nearest one to the fractions that it is. -/
theorem nearest?_of_eq {x : Binary64} {n d : Nat} (hd : 0 < d)
    (same : n * x.denominator = x.numerator * d) : nearest? x.negative n d = some x := by
  have itself : ofRank? x.negative x.rank = some x := dif_pos x.rank_lt
  rcases x.rank.eq_zero_or_pos with zero | pos
  · have none : n = 0 := by
      have product : n * x.denominator = 0 := by
        rw [same, numerator_of_zero x zero, Nat.zero_mul]
      exact (Nat.mul_eq_zero.mp product).resolve_right (denominator_pos x).ne'
    rw [nearest?, if_pos none, ← zero, itself]
  · have hn : 0 < n := by
      have product : 0 < n * x.denominator := by
        rw [same]
        exact Nat.mul_pos (numerator_pos x pos) hd
      exact Nat.pos_of_mul_pos_right product
    have close : IsClose (n * x.denominator) (x.numerator * d) := by
      rw [same]
      exact ⟨Nat.mul_le_mul_right _ (Nat.le_succ _), Nat.le_add_right _ _⟩
    rw [nearest?, if_neg hn.ne', nearestRank_of_close hn hd close, itself]

/-- The number at a place of a binade above the lowest two. -/
theorem value_of_rank {x : Binary64} {s m : Nat} (le : s ≤ lowest)
    (rank : x.rank = s * binade + m) (least : binade ≤ m) (most : m < 2 * binade) :
    x.numerator = m ∧ x.denominator = 2 ^ (lowest - s) := by
  have above : x.rank / binade = s + 1 := by
    refine Nat.div_eq_of_lt_le ?_ ?_ <;> rw [rank] <;> linarith
  have scale : x.scale = s := by rw [Binary64.scale, above, Nat.add_sub_cancel]
  have significand : x.significand = m := by
    rw [Binary64.significand, scale, rank, Nat.add_sub_cancel_left]
  refine ⟨?_, by rw [denominator_eq, scale]⟩
  rw [numerator_eq, significand, scale, Nat.sub_eq_zero_of_le le, Nat.pow_zero, Nat.mul_one]

/-- Every whole number of 53 bits is a number. -/
theorem exists_whole (negative : Bool) {n : Nat} (small : n < 2 * binade) :
    ∃ x : Binary64, x.negative = negative ∧ x.numerator = n * x.denominator := by
  rcases n.eq_zero_or_pos with rfl | pos
  · refine ⟨⟨negative, 0, by decide⟩, rfl, ?_⟩
    rw [numerator_of_zero _ rfl, Nat.zero_mul]
  -- Its bits are moved up as far as there is room for them.
  have few : Nat.log2 n ≤ 52 := Nat.le_of_lt_succ ((Nat.log2_lt pos.ne').mpr small)
  obtain ⟨k, room⟩ := Nat.exists_eq_add_of_le few
  have least : binade ≤ n * 2 ^ k := by
    have lower := Nat.mul_le_mul_right (2 ^ k) (Nat.log2_self_le pos.ne')
    rwa [← Nat.pow_add, ← room] at lower
  have most : n * 2 ^ k < 2 * binade := by
    have upper := Nat.mul_lt_mul_of_pos_right (Nat.lt_log2_self (n := n)) (Nat.two_pow_pos k)
    rwa [← Nat.pow_add, Nat.add_right_comm, ← room] at upper
  have le : k ≤ lowest := (Nat.le_of_add_left_le room.ge).trans (by decide)
  have rank_lt : (lowest - k) * binade + n * 2 ^ k < magnitudes := by
    have := Nat.mul_le_mul_right binade (Nat.sub_le lowest k)
    rw [magnitudes]
    rw [lowest] at this ⊢
    omega
  let x : Binary64 := ⟨negative, _, rank_lt⟩
  obtain ⟨numerator, denominator⟩ := value_of_rank (x := x) (Nat.sub_le ..) rfl least most
  rw [Nat.sub_sub_self le] at denominator
  exact ⟨x, rfl, by rw [numerator, denominator]⟩

/-- A whole number of 53 bits is its own nearest number. -/
theorem exists_exact (negative : Bool) {n : Nat} (small : n < 2 * binade) :
    ∃ x, nearest? negative n 1 = some x ∧ x.negative = negative ∧
      x.numerator = n * x.denominator := by
  obtain ⟨x, rfl, value⟩ := exists_whole negative small
  exact ⟨x, nearest?_of_eq Nat.one_pos (by rw [value, Nat.mul_one]), rfl, value⟩

/-- Small powers of ten are their own nearest numbers. -/
theorem powerOfTen?_exact {k : Nat} (small : k ≤ 22) :
    ∃ p, powerOfTen? k = some p ∧ p.negative = false ∧ p.numerator = 10 ^ k * p.denominator := by
  have all : ∀ k < 23, ((powerOfTen? k).any fun p =>
      p.negative == false && p.numerator == 10 ^ k * p.denominator) = true := by decide +kernel
  obtain ⟨p, power, exact⟩ := (Option.any_eq_true _ _).mp (all k (Nat.lt_succ_of_le small))
  rw [Bool.and_eq_true, beq_iff_eq, beq_iff_eq] at exact
  exact ⟨p, power, exact⟩

/-- Moving the point of a whole number a few places is the only step that rounds. -/
theorem movePoint?_exact {x : Binary64} {n : Nat} {places : Int}
    (whole : x.numerator = n * x.denominator) (small : places.natAbs ≤ 22) :
    x.movePoint? places = nearest? x.negative (n * tens places) (tens (-places)) := by
  obtain ⟨p, power, positive, value⟩ := powerOfTen?_exact small
  have hx := denominator_pos x
  have hp := denominator_pos p
  rw [movePoint?, power, Option.bind_some]
  split
  · next right =>
    rw [product?, positive, Bool.bne_false]
    refine nearest?_congr x.negative (Nat.mul_pos hx hp) (tens_pos _) ?_
    rw [whole, value, tens_eq (e := places) (k := places.natAbs) (by omega),
      tens_eq (e := -places) (k := 0) (by omega)]
    ring
  · next left =>
    rw [quotient?, positive, Bool.bne_false]
    have hp' : 0 < p.numerator := by
      rw [value]
      exact Nat.mul_pos (Nat.pow_pos (by decide)) hp
    refine nearest?_congr x.negative (Nat.mul_pos hx hp') (tens_pos _) ?_
    rw [whole, value, tens_eq (e := places) (k := 0) (by omega),
      tens_eq (e := -places) (k := places.natAbs) (by omega)]
    ring

/-- A few places are moved at once. -/
theorem scale?_of_le {x : Binary64} {places : Int} (few : places.natAbs ≤ maxPower) :
    x.scale? places = x.movePoint? places := by
  have near : ¬ (maxPower : Int) < places := by omega
  have once : ((-places).toNat - 1) / maxPower = 0 := by
    rw [Nat.div_eq_zero_iff]
    rw [maxPower] at few ⊢
    omega
  rw [scale?, if_neg near, once]
  show (some x).bind _ = _
  rw [Option.bind_some, Nat.cast_zero, Int.mul_zero, Int.add_zero]

/-- **Short decimals are read exactly.** A whole number of 53 bits with its point moved by 22 places
at most is read as the number nearest to it. -/
theorem scale?_of_short {negative : Bool} {n : Nat} {places : Int} (digits : n < 2 * binade)
    (small : places.natAbs ≤ 22) :
    ((nearest? negative n 1).bind fun x => x.scale? places) = ofDecimal? negative n places := by
  obtain ⟨x, nearest, rfl, whole⟩ := exists_exact negative digits
  rw [nearest, Option.bind_some, scale?_of_le (small.trans (by decide)),
    movePoint?_exact whole small]
  rcases n.eq_zero_or_pos with rfl | pos
  · rw [ofDecimal?_of_place_lt (.inl rfl), Nat.zero_mul]
    rfl
  · have length : (Text.natural n).length ≤ 16 := by
      rw [Text.length_natural_le_iff (by decide)]
      exact digits.trans two_binades_lt_fine
    rw [ofDecimal?_of_place pos (by omega) (by omega)]

end Binary64

end MarketStream
