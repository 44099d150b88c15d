import Mathlib.Data.List.Basic
import Mathlib.Data.Nat.Digits.Defs
import Mathlib.Tactic.Ring
import MarketStream.Proofs.Text.Numeral
import MarketStream.Trade

/-!
# Ids as numbers

An id is read as a number digit by digit, and reading ends as soon as a result is no signed 64-bit
number. Nothing is given up too early by that: no digit makes a number smaller, so a result on the
way is too large only if the number that the whole id spells is.

* `AreDigits`, `spelled` — decimal digits, and the number that they spell;
* `pushDigit?_eq_some` — one digit behind a number read so far;
* `foldlM_pushDigit?_eq_some` — any digits behind it;
* `ids_read_exactly` — which ids are read as a number, and as which;
* `idNumber?_written` — a number is read from its own digits, with zeros in front of them or not.
-/

namespace MarketStream.Trade

/-! ## Digits -/

/-- All bytes are ASCII digits. -/
def AreDigits (bytes : Bytes) : Prop := ∀ b ∈ bytes, '0'.toNat ≤ b.toNat ∧ b.toNat ≤ '9'.toNat

/-- What an ASCII digit stands for. -/
def digitOf (b : UInt8) : Nat := b.toNat - '0'.toNat

/-- The number that ASCII digits spell: the last one counts ones, the one before it tens, and so
on. No digits spell zero. -/
def spelled (bytes : Bytes) : Nat := Nat.ofDigits 10 (bytes.reverse.map digitOf)

variable {n m : Nat} {b : UInt8} {bytes : Bytes} {cs : List Char}

theorem isDigitByte_iff : isDigitByte b ↔ '0'.toNat ≤ b.toNat ∧ b.toNat ≤ '9'.toNat := by
  rw [isDigitByte, Bool.and_eq_true, decide_eq_true_eq, decide_eq_true_eq, UInt8.le_iff_toNat_le,
    UInt8.le_iff_toNat_le]
  rfl

/-- The first digit counts as many times ten as there are digits after it. -/
theorem spelled_cons (b : UInt8) (rest : Bytes) :
    spelled (b :: rest) = digitOf b * 10 ^ rest.length + spelled rest := by
  rw [spelled, List.reverse_cons, List.map_append, Nat.ofDigits_append, List.map_singleton,
    Nat.ofDigits_singleton, List.length_map, List.length_reverse, Nat.mul_comm, Nat.add_comm]
  rfl

/-! ## Reading -/

theorem representable?_eq_some :
    representable? n = some m ↔ n = m ∧ m < 0x8000000000000000 := by
  rw [representable?, Option.ite_none_right_eq_some, Option.some_inj]
  constructor
  · rintro ⟨small, rfl⟩
    exact ⟨rfl, small⟩
  · rintro ⟨rfl, small⟩
    exact ⟨small, rfl⟩

/-- A digit can be put behind a number if the result is a signed 64-bit number: ten times the number
is one then, too. -/
theorem pushDigit?_eq_some :
    pushDigit? n b = some m ↔
      ('0'.toNat ≤ b.toNat ∧ b.toNat ≤ '9'.toNat) ∧ n * 10 + digitOf b = m
        ∧ m < 0x8000000000000000 := by
  rw [← isDigitByte_iff, pushDigit?]
  split
  · next digit =>
    have value : (b - 48).toNat = digitOf b :=
      UInt8.toNat_sub_of_le b 48 (UInt8.le_iff_toNat_le.mpr (isDigitByte_iff.mp digit).1)
    rw [and_iff_right digit, value]
    show (representable? (n * 10)).bind _ = _ ↔ _
    rw [Option.bind_eq_some_iff]
    constructor
    · rintro ⟨tenfold, multiplied, added⟩
      obtain ⟨rfl, -⟩ := representable?_eq_some.mp multiplied
      exact representable?_eq_some.mp added
    · rintro ⟨sum, small⟩
      have tenfold : n * 10 < 0x8000000000000000 := by omega
      exact ⟨n * 10, representable?_eq_some.mpr ⟨rfl, tenfold⟩,
        representable?_eq_some.mpr ⟨sum, small⟩⟩
  · next other => exact iff_of_false nofun fun h => other h.1

/-- Digits are read behind a number if all of them together spell a signed 64-bit number. -/
theorem foldlM_pushDigit?_eq_some (fits : n < 0x8000000000000000) :
    bytes.foldlM pushDigit? n = some m ↔
      AreDigits bytes ∧ n * 10 ^ bytes.length + spelled bytes = m ∧ m < 0x8000000000000000 := by
  -- By induction on the digits, behind any number that fits.
  induction bytes generalizing n with
  | nil =>
    have nothing : n * 10 ^ 0 + spelled [] = n := by
      rw [Nat.pow_zero, Nat.mul_one]
      rfl
    have digits : AreDigits [] := nofun
    rw [List.length_nil, nothing, and_iff_right digits]
    constructor
    · rintro ⟨⟩
      exact ⟨rfl, fits⟩
    · rintro ⟨rfl, -⟩
      rfl
  | cons b rest ih =>
    have shifted : n * 10 ^ (b :: rest).length + spelled (b :: rest)
        = (n * 10 + digitOf b) * 10 ^ rest.length + spelled rest := by
      rw [spelled_cons, List.length_cons]
      ring
    rw [shifted, List.foldlM_cons]
    show (pushDigit? n b).bind _ = _ ↔ _
    rw [Option.bind_eq_some_iff]
    constructor
    · rintro ⟨longer, pushed, read⟩
      obtain ⟨digit, rfl, longerFits⟩ := pushDigit?_eq_some.mp pushed
      obtain ⟨digits, value, small⟩ := (ih longerFits).mp read
      exact ⟨List.forall_mem_cons.mpr ⟨digit, digits⟩, value, small⟩
    · rintro ⟨digits, value, small⟩
      obtain ⟨digit, others⟩ := List.forall_mem_cons.mp digits
      -- What is read up to here is at most what is read in the end, so it fits if that does.
      have longerFits : n * 10 + digitOf b < 0x8000000000000000 :=
        calc n * 10 + digitOf b
            ≤ (n * 10 + digitOf b) * 10 ^ rest.length :=
              Nat.le_mul_of_pos_right _ (Nat.pow_pos (by decide))
          _ ≤ (n * 10 + digitOf b) * 10 ^ rest.length + spelled rest := Nat.le_add_right ..
          _ = m := value
          _ < 0x8000000000000000 := small
      exact ⟨_, pushDigit?_eq_some.mpr ⟨digit, rfl, longerFits⟩,
        (ih longerFits).mpr ⟨others, value, small⟩⟩

/-- Bytes are read as the number that they spell. -/
theorem foldlM_pushDigit?_zero :
    bytes.foldlM pushDigit? 0 = some n ↔
      AreDigits bytes ∧ spelled bytes = n ∧ n < 0x8000000000000000 := by
  rw [foldlM_pushDigit?_eq_some (by decide), Nat.zero_mul, Nat.zero_add]

/-- **Ids are read exactly.** An id of any length is read as a number if and only if all its bytes
are ASCII digits and the number they spell, zero for an empty id, is a signed 64-bit number; it is
read as this number then. So nothing that happens on the way can hide a number that fits, or bring
about one that does not. -/
theorem ids_read_exactly (t : Trade) (n : Nat) :
    t.idNumber? = some n ↔
      AreDigits (textBytes t.id) ∧ spelled (textBytes t.id) = n
        ∧ (n : Int) ≤ Int64.maxValue.toInt := by
  have limit : Int64.maxValue.toInt = 9223372036854775807 := rfl
  have fits_iff : (n : Int) ≤ Int64.maxValue.toInt ↔ n < 0x8000000000000000 := by omega
  rw [fits_iff]
  exact foldlM_pushDigit?_zero

/-- The greatest number that fits, with zeros in front of it, and the number after it. -/
example : ({ id := "0000009223372036854775807" } : Trade).idNumber? = some 9223372036854775807
    ∧ ({ id := "9223372036854775808" } : Trade).idNumber? = none := by
  decide +kernel

/-! ## Written numbers -/

theorem ascii_of_isDigit {c : Char} (digit : c.isDigit) : c.toNat ≤ 127 :=
  Nat.le_trans (Char.isDigit_iff_toNat.mp digit).2 (by decide)

/-- The byte of a digit has the number of the digit. -/
theorem toNat_byte_of_isDigit {c : Char} (digit : c.isDigit) :
    (UInt8.ofNat c.toNat).toNat = c.toNat :=
  UInt8.toNat_ofNat_of_lt' (Nat.lt_of_le_of_lt (ascii_of_isDigit digit) (by decide))

/-- Digits are ASCII, so each is one byte. -/
theorem utf8_of_digits (digits : ∀ c ∈ cs, c.isDigit) :
    utf8 cs = cs.map fun c => .ofNat c.toNat := by
  rw [utf8, List.map_eq_flatMap]
  exact List.flatMap_congr fun c mem => if_pos (ascii_of_isDigit (digits c mem))

theorem areDigits_utf8 (digits : ∀ c ∈ cs, c.isDigit) : AreDigits (utf8 cs) := by
  rw [AreDigits, utf8_of_digits digits, List.forall_mem_map]
  intro c mem
  rw [toNat_byte_of_isDigit (digits c mem)]
  exact Char.isDigit_iff_toNat.mp (digits c mem)

/-- The bytes of digits spell what the digits are worth. -/
theorem spelled_utf8 (digits : ∀ c ∈ cs, c.isDigit) :
    spelled (utf8 cs) = Text.digitsValue cs := by
  rw [utf8_of_digits digits]
  induction cs with
  | nil => rfl
  | cons c rest ih =>
    obtain ⟨digit, others⟩ := List.forall_mem_cons.mp digits
    have first : Text.digitsValue [c] = digitOf (.ofNat c.toNat) := by
      rw [digitOf, toNat_byte_of_isDigit digit]
      exact Nat.zero_add _
    rw [List.map_cons, spelled_cons, List.length_map, ih others, ← first,
      ← Text.digitsValue_append, List.singleton_append]

/-- **Written numbers are read back.** The digits of a number are read as the number if it is a
signed 64-bit number, and as none otherwise, however many zeros are in front of them. -/
theorem idNumber?_written (t : Trade) (zeros n : Nat) :
    { t with id := .ofList (List.replicate zeros '0' ++ Text.natural n) }.idNumber?
      = representable? n := by
  have digits : ∀ c ∈ List.replicate zeros '0' ++ Text.natural n, c.isDigit := by
    intro c mem
    rcases List.mem_append.mp mem with zero | written
    · rw [List.eq_of_mem_replicate zero]
      rfl
    · exact Text.isDigit_of_mem_natural written
  have value : Text.digitsValue (List.replicate zeros '0' ++ Text.natural n) = n := by
    rw [Text.digitsValue_append, Text.digitsValue_zeros, Text.digitsValue_natural, Nat.zero_mul,
      Nat.zero_add]
  refine Option.ext fun m => ?_
  rw [idNumber?, textBytes, String.toList_ofList, foldlM_pushDigit?_zero, spelled_utf8 digits,
    value, and_iff_right (areDigits_utf8 digits), representable?_eq_some]

end MarketStream.Trade
