import MarketStream.Proofs.Decimal.Scaling
import MarketStream.Proofs.Json.Number

/-!
# Reading measured numbers back

The text of a measured number spells its shortest decimal, with a point or an exponent, so it is
read as a measured number again, and the number nearest to what it spells is the number itself. But
a reader rounds more than once, so only of numbers with short texts it is known that they are read
back; of any other this has to be asked.

* `Numeral.Denotes`, `Spells` — a text that spells a decimal;
* `spells_place`, `spells_scientific` — the two layouts;
* `parse?_writeFloat` — the text of a number spells a decimal to which the number is nearest;
* `ReadsBack` — a number that is read back from its text; `readsBack_of_isShort` — some that are.
-/

namespace MarketStream.Json

/-! ## Spelled decimals -/

/-- A numeral with a point or an exponent that denotes the decimal `n * 10 ^ e`. -/
structure Numeral.Denotes (m : Numeral) (n : Nat) (e : Int) : Prop where
  /-- It is not an integer. -/
  measured : m.isWhole = false
  /-- Its digits are those of the decimal, perhaps with zeros after them. -/
  value : ∃ z : Nat, Text.digitsValue (m.whole ++ m.fraction) = n * 10 ^ z ∧
    m.exponent.getD 0 - m.fraction.length + z = e

/-- A text spells the decimal `n * 10 ^ e` as a measured number. -/
def Spells (text : List Char) (n : Nat) (e : Int) : Prop :=
  ∀ negative, ∃ m, Numeral.unsigned? negative text = some m ∧ m.negative = negative ∧ m.Denotes n e

/-- A number with a point or an exponent spells what its digits and its exponent tell. -/
theorem spells_of_parts {whole fraction tail : List Char} {exponent : Option Int} {n z : Nat}
    {e : Int} (hw : IsWhole whole) (digits : ∀ c ∈ fraction, c.isDigit = true)
    (spelled : Numeral.exponent? tail = some exponent) (measured : fraction ≠ [] ∨ exponent ≠ none)
    (value : Text.digitsValue (whole ++ fraction) = n * 10 ^ z)
    (place : exponent.getD 0 - fraction.length + z = e) :
    Spells (whole ++ (pointed fraction ++ tail)) n e := by
  intro negative
  refine ⟨⟨negative, whole, fraction, exponent⟩, unsigned?_spelled negative hw digits spelled, rfl,
    ?_, z, value, place⟩
  rw [Numeral.isWhole, Bool.and_eq_false_iff, List.isEmpty_eq_false_iff,
    Option.isNone_eq_false_iff, Option.isSome_iff_ne_none]
  exact measured

/-- A number with a point and no exponent. -/
theorem spells_point {whole fraction : List Char} {n z : Nat} {e : Int} (hw : IsWhole whole)
    (digits : ∀ c ∈ fraction, c.isDigit = true) (nonempty : fraction ≠ [])
    (value : Text.digitsValue (whole ++ fraction) = n * 10 ^ z)
    (place : (z : Int) - fraction.length = e) : Spells (whole ++ '.' :: fraction) n e := by
  have text : pointed fraction ++ [] = '.' :: fraction := by
    obtain ⟨c, rest, rfl⟩ := List.exists_cons_of_ne_nil nonempty
    exact List.append_nil _
  rw [← text]
  refine spells_of_parts hw digits rfl (.inl nonempty) value ?_
  rw [Option.getD_none]
  omega

/-- A whole decimal is written with its zeros. -/
theorem spells_whole {n z : Nat} (zero : n = 0 → z = 0) :
    Spells (Text.natural n ++ List.replicate z '0' ++ ['.', '0']) n z := by
  have shifted : Text.natural n ++ List.replicate z '0' = Text.natural (n * 10 ^ z) := by
    rcases n.eq_zero_or_pos with rfl | pos
    · rw [zero rfl]
      rfl
    · exact (Text.natural_mul_pow pos z).symm
  have value : Text.digitsValue (Text.natural (n * 10 ^ z) ++ ['0']) = n * 10 ^ (z + 1) := by
    rw [Text.digitsValue_append, Text.digitsValue_natural, Nat.pow_succ, ← Nat.mul_assoc]
    rfl
  rw [shifted]
  refine spells_point (isWhole_natural _) (List.forall_mem_singleton.mpr rfl)
    (List.cons_ne_nil _ _) value ?_
  rw [List.length_singleton]
  omega

/-- A decimal with digits before the point and after it. -/
theorem spells_mixed {n size : Nat} {e : Int} (before : 0 < size)
    (after : size < (Text.natural n).length) (he : (Text.natural n).length + e = size) :
    Spells ((Text.natural n).take size ++ '.' :: (Text.natural n).drop size) n e := by
  have parts := List.take_append_drop size (Text.natural n)
  have digits (c : Char) (hc : c ∈ Text.natural n) : c.isDigit = true :=
    Text.isDigit_of_mem_natural hc
  have whole : IsWhole ((Text.natural n).take size) := by
    refine ⟨fun c hc => digits c (List.mem_of_mem_take hc), ?_, ?_⟩
    · intro nil
      have length := congrArg List.length nil
      rw [List.length_take, List.length_nil] at length
      omega
    · -- A number that begins with a zero has no other digit.
      intro zero
      rw [List.head?_take, if_neg before.ne'] at zero
      rw [(isWhole_natural n).noZero zero, List.length_singleton] at after
      omega
  refine spells_point (z := 0) whole (fun c hc => digits c (List.mem_of_mem_drop hc)) ?_ ?_ ?_
  · intro nil
    have length := congrArg List.length nil
    rw [List.length_drop, List.length_nil] at length
    omega
  · rw [parts, Text.digitsValue_natural, Nat.pow_zero, Nat.mul_one]
  · rw [List.length_drop]
    omega

/-- A decimal with zeros after the point. -/
theorem spells_small (n z : Nat) {e : Int} (he : (Text.natural n).length + e = -z) :
    Spells ('0' :: '.' :: (List.replicate z '0' ++ Text.natural n)) n e := by
  have whole : IsWhole ['0'] := isWhole_singleton rfl
  refine spells_point (z := 0) whole ?_ ?_ ?_ ?_
  · intro c hc
    rcases List.mem_append.mp hc with zero | digit
    · rw [List.eq_of_mem_replicate zero]
      rfl
    · exact Text.isDigit_of_mem_natural digit
  · exact List.append_ne_nil_of_right_ne_nil _ (Text.natural_ne_nil n)
  · have zero : Text.digitsValue ['0'] = 0 := rfl
    rw [Text.digitsValue_append, Text.digitsValue_append, zero, Text.digitsValue_zeros,
      Text.digitsValue_natural, Nat.zero_mul, Nat.zero_mul, Nat.zero_add, Nat.zero_add,
      Nat.pow_zero, Nat.mul_one]
  · rw [List.length_append, List.length_replicate]
    omega

/-- What follows the letter of an exponent. -/
theorem exponent?_written (k : Int) :
    Numeral.exponent? ('e' :: (if 0 < k then ['+'] else []) ++ Text.integer k) = some (some k) := by
  rw [List.cons_append, Numeral.exponent?, if_pos (.inl rfl)]
  split
  · next pos =>
    obtain ⟨n, rfl⟩ := Int.eq_ofNat_of_zero_le pos.le
    show Option.map some (Option.map Int.ofNat (Text.natural? (Text.natural n))) = _
    rw [Text.natural?_natural]
    rfl
  · rw [List.nil_append, Text.integer?_integer, Option.map_some]

/-- A decimal written without exponent. -/
theorem spells_place {n : Nat} {e : Int} (zero : n = 0 → e = 0) :
    Spells (Layout.wire.place ⟨Text.natural n, (Text.natural n).length + e⟩) n e := by
  rw [Layout.place]
  dsimp only
  split
  · next whole =>
    obtain ⟨z, rfl⟩ := Int.eq_ofNat_of_zero_le (a := e) (by omega)
    rw [show ((Text.natural n).length + (z : Int) - (Text.natural n).length).toNat = z by omega]
    exact spells_whole fun none => Int.ofNat.inj (zero none)
  · next part =>
    split
    · next inside =>
      refine spells_mixed ?_ ?_ ?_ <;> omega
    · next outside =>
      refine spells_small n _ ?_
      omega

/-- A decimal written with an exponent. -/
theorem spells_scientific (n : Nat) (e : Int) :
    Spells (Layout.scientific ⟨Text.natural n, (Text.natural n).length + e⟩) n e := by
  have value : Text.digitsValue (Text.natural n) = n * 10 ^ 0 := by
    rw [Text.digitsValue_natural, Nat.pow_zero, Nat.mul_one]
  have digits (c : Char) (hc : c ∈ Text.natural n) : c.isDigit = true :=
    Text.isDigit_of_mem_natural hc
  have nonempty := Text.natural_ne_nil n
  rw [Layout.scientific]
  dsimp only
  generalize Text.natural n = cs at value digits nonempty ⊢
  have spelled := exponent?_written (cs.length + e - 1)
  rw [List.append_assoc]
  obtain ⟨first, others, rfl⟩ := List.exists_cons_of_ne_nil nonempty
  obtain ⟨first_digit, other_digits⟩ := List.forall_mem_cons.mp digits
  have place : ((first :: others).length : Int) + e - 1 - others.length + (0 : Nat) = e := by
    rw [List.length_cons]
    omega
  have spells := spells_of_parts (isWhole_singleton first_digit) other_digits spelled
    (.inr (Option.some_ne_none _)) value place
  cases others with
  | nil => exact spells
  | cons second rest => exact spells

/-! ## The number of a text -/

/-- The measured number nearest to what a numeral spells, unless it is too large. -/
def Numeral.nearest? (m : Numeral) : Option Binary64 :=
  Binary64.ofDecimal? m.negative (Text.digitsValue (m.whole ++ m.fraction))
    (m.exponent.getD 0 - m.fraction.length)

/-- The number nearest to a numeral is the one nearest to the decimal that it denotes. -/
theorem Numeral.Denotes.nearest?_eq {m : Numeral} {n : Nat} {e : Int} (h : m.Denotes n e) :
    m.nearest? = Binary64.ofDecimal? m.negative n e := by
  obtain ⟨z, value, place⟩ := h.value
  rw [Numeral.nearest?, value, Binary64.ofDecimal?_mul_pow, place]

theorem value?_of_not_isWhole {m : Numeral} (h : m.isWhole = false) :
    m.value? = m.float?.map .float := by
  rw [Numeral.value?, Numeral.integer?, h, if_neg Bool.false_ne_true]

/-- **The text of a measured number denotes the number.** It spells a measured number, and of what it
spells the number is the nearest. -/
theorem parse?_writeFloat (x : Binary64) :
    ∃ m, Numeral.parse? (writeFloat x) = some m ∧ m.isWhole = false ∧ m.nearest? = some x := by
  obtain ⟨n, e, zero, short, denotes⟩ := Binary64.ofDecimal?_shortest .even x
  have spells : Spells (if Layout.wire.positional ((Text.natural n).length + e) then
      Layout.wire.place ⟨Text.natural n, (Text.natural n).length + e⟩
      else Layout.scientific ⟨Text.natural n, (Text.natural n).length + e⟩) n e := by
    split
    · exact spells_place zero
    · exact spells_scientific n e
  obtain ⟨m, parts, sign, decimal⟩ := spells x.negative
  refine ⟨m, ?_, decimal.measured, by rw [decimal.nearest?_eq, sign, denotes]⟩
  have halfway : Layout.wire.halfway = .even := rfl
  rw [writeFloat, Layout.write, halfway, short, parse?_signed parts]

/-! ## Reading it back -/

/-- A number is read back from its text. -/
def ReadsBack (x : Binary64) : Prop :=
  (Numeral.parse? (writeFloat x)).bind Numeral.float? = some x

instance (x : Binary64) : Decidable (ReadsBack x) :=
  inferInstanceAs (Decidable (_ = some x))

/-- What the text of a number that is read back spells. -/
theorem ReadsBack.exists_numeral {x : Binary64} (h : ReadsBack x) :
    ∃ m, Numeral.parse? (writeFloat x) = some m ∧ m.float? = some x ∧ m.value? = some (.float x) := by
  obtain ⟨m, parts, measured, -⟩ := parse?_writeFloat x
  rw [ReadsBack, parts, Option.bind_some] at h
  refine ⟨m, parts, h, ?_⟩
  rw [value?_of_not_isWhole measured, h, Option.map_some]

/-- A numeral whose digits and power of ten are numbers themselves. -/
structure Numeral.IsShort (m : Numeral) : Prop where
  /-- The digits fit 53 bits. -/
  digits : Text.digitsValue (m.whole ++ m.fraction) < 2 * Binary64.binade
  /-- The point is moved by 22 places at most. -/
  places : (m.exponent.getD 0 - m.fraction.length).natAbs ≤ 22

/-- A short numeral is read as the number nearest to it. -/
theorem Numeral.float?_of_isShort {m : Numeral} (h : m.IsShort) : m.float? = m.nearest? := by
  obtain ⟨small, few⟩ := h
  rw [nearest?, ← Binary64.scale?_of_short small few]
  rw [Text.digitsValue, Nat.ofDigitChars_append] at small ⊢
  have fits := small.trans (show 2 * Binary64.binade < 0x10000000000000000 by decide)
  have units := takeDigits_of_fits ((le_ofDigitChars _ m.fraction).trans_lt fits)
  have digits := takeDigits_of_fits fits
  simp only [float?, units, digits, List.length_nil, Nat.sub_zero, Nat.cast_zero, Int.add_zero]

/-- **Numbers with short texts are read back.** -/
theorem readsBack_of_isShort {x : Binary64} {m : Numeral}
    (parts : Numeral.parse? (writeFloat x) = some m) (short : m.IsShort) : ReadsBack x := by
  obtain ⟨m', parts', -, nearest⟩ := parse?_writeFloat x
  obtain rfl : m = m' := Option.some.inj (parts.symm.trans parts')
  rw [ReadsBack, parts, Option.bind_some, Numeral.float?_of_isShort short, nearest]

/-- A number that is not read back: its seventeen digits do not fit 53 bits, so they are rounded
before the point is moved. -/
example : ¬ ReadsBack ⟨false, 0x403F23F552551DDB, by decide⟩ := by decide +kernel

end MarketStream.Json
