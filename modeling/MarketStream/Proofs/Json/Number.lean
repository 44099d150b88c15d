import Mathlib.Data.List.TakeWhile
import MarketStream.Json.Record
import MarketStream.Proofs.Json.Extent
import MarketStream.Proofs.Text.Numeral

/-!
# Reading whole numbers back

The digits of a whole number are a numeral without leading zeros, so they are passed over as one
value and read as the number.

* `unsigned?_spelled`, `parse?_signed` — the parts of a spelled number;
* `parse?_integer` — those of a whole number;
* `isValue_integer` — it is a value;
* `int64?_integer` — a written number is read back.
-/

namespace MarketStream.Json

/-! ## The parts of a number -/

/-- Digits that may stand before a point. -/
structure IsWhole (cs : List Char) : Prop where
  /-- There are only digits. -/
  digits : ∀ c ∈ cs, c.isDigit = true
  /-- There are some. -/
  nonempty : cs ≠ []
  /-- A zero leads only if it is the only one. -/
  noZero : cs.head? = some '0' → cs = ['0']

theorem isWhole_natural (n : Nat) : IsWhole (Text.natural n) := by
  refine ⟨fun c hc => Text.isDigit_of_mem_natural hc, Text.natural_ne_nil n, ?_⟩
  intro zero
  rcases n.eq_zero_or_pos with rfl | pos
  · rfl
  · exact absurd zero (Text.head?_natural pos)

theorem isWhole_singleton {c : Char} (digit : c.isDigit = true) : IsWhole [c] := by
  refine ⟨List.forall_mem_singleton.mpr digit, List.cons_ne_nil c [], ?_⟩
  intro zero
  rw [Option.some.inj zero]

/-- The digits after a point, with the point if there are any. -/
def pointed : List Char → List Char
  | [] => []
  | fraction => '.' :: fraction

/-- Digits end where something else follows. -/
theorem span_digits {cs rest : List Char} (digits : ∀ c ∈ cs, c.isDigit = true)
    (stop : ∀ c ∈ rest.head?, c.isDigit = false) :
    (cs ++ rest).takeWhile Char.isDigit = cs ∧ (cs ++ rest).dropWhile Char.isDigit = rest := by
  rw [List.takeWhile_append_of_pos digits, List.dropWhile_append_of_pos digits]
  cases rest with
  | nil => exact ⟨List.append_nil cs, rfl⟩
  | cons c rest =>
    have notDigit : ¬ c.isDigit = true := by
      rw [stop c rfl]
      exact Bool.false_ne_true
    rw [List.takeWhile_cons_of_neg notDigit, List.dropWhile_cons_of_neg notDigit, List.append_nil]
    exact ⟨rfl, rfl⟩

/-- An exponent does not begin like what may stand before it. -/
theorem head_of_exponent? {tail : List Char} {e : Option Int}
    (h : Numeral.exponent? tail = some e) : ∀ c ∈ tail.head?, c.isDigit = false ∧ c ≠ '.' := by
  cases tail with
  | nil =>
    intro c hc
    cases hc
  | cons d rest =>
    rw [Numeral.exponent?, Option.ite_none_right_eq_some] at h
    rintro c hc
    obtain rfl := Option.some.inj hc
    rcases h.1 with rfl | rfl <;> exact ⟨rfl, by decide⟩

theorem fraction?_pointed {fraction tail : List Char} (digits : ∀ c ∈ fraction, c.isDigit = true)
    (stop : ∀ c ∈ tail.head?, c.isDigit = false ∧ c ≠ '.') :
    Numeral.fraction? (pointed fraction ++ tail) = some (fraction, tail) := by
  cases fraction with
  | nil =>
    rw [pointed, List.nil_append, Numeral.fraction?.eq_def]
    split
    · exact absurd rfl (stop '.' rfl).2
    · rfl
  | cons c fraction =>
    obtain ⟨take, drop⟩ := span_digits digits fun c hc => (stop c hc).1
    rw [pointed, List.cons_append, Numeral.fraction?, take, drop, if_neg (List.cons_ne_nil c _)]
    exact List.cons_ne_nil c _

/-- The parts of a spelled number without its sign. -/
theorem unsigned?_spelled (negative : Bool) {whole fraction tail : List Char} {e : Option Int}
    (hw : IsWhole whole) (digits : ∀ c ∈ fraction, c.isDigit = true)
    (exponent : Numeral.exponent? tail = some e) :
    Numeral.unsigned? negative (whole ++ (pointed fraction ++ tail))
      = some ⟨negative, whole, fraction, e⟩ := by
  have stop := head_of_exponent? exponent
  have point : ∀ c ∈ (pointed fraction ++ tail).head?, c.isDigit = false := by
    cases fraction with
    | nil => exact fun c hc => (stop c hc).1
    | cons d fraction =>
      intro c hc
      rw [← Option.some.inj hc]
      rfl
  obtain ⟨take, drop⟩ := span_digits hw.digits point
  have noZero : ¬ (whole = [] ∨ whole.head? = some '0' ∧ whole ≠ ['0']) := by
    rintro (nil | ⟨zero, more⟩)
    · exact hw.nonempty nil
    · exact more (hw.noZero zero)
  rw [Numeral.unsigned?, take, drop, if_neg noZero, fraction?_pointed digits stop]
  dsimp only
  rw [exponent, Option.map_some]

/-- A number without its sign begins with a digit. -/
theorem head_of_unsigned? {negative : Bool} {cs : List Char} {n : Numeral}
    (h : Numeral.unsigned? negative cs = some n) : ∃ c rest, cs = c :: rest ∧ c.isDigit = true := by
  rw [Numeral.unsigned?, Option.ite_none_left_eq_some, not_or] at h
  obtain ⟨⟨nonempty, -⟩, -⟩ := h
  cases cs with
  | nil => exact absurd rfl nonempty
  | cons c rest =>
    refine ⟨c, rest, rfl, ?_⟩
    refine Bool.of_not_eq_false fun notDigit => nonempty ?_
    rw [List.takeWhile_cons, notDigit]
    rfl

theorem parse?_signed {negative : Bool} {text : List Char} {m : Numeral}
    (h : Numeral.unsigned? negative text = some m) :
    Numeral.parse? ((if negative then ['-'] else []) ++ text) = some m := by
  cases negative with
  | true => exact h
  | false =>
    obtain ⟨c, rest, rfl, digit⟩ := head_of_unsigned? h
    rw [if_neg Bool.false_ne_true, List.nil_append, Numeral.parse?.eq_def]
    split
    · next eq =>
      rw [(List.cons.inj eq).1] at digit
      cases digit
    · exact h

/-! ## Whole numbers -/

/-- The numeral of digits. -/
theorem unsigned?_natural (negative : Bool) (n : Nat) :
    Numeral.unsigned? negative (Text.natural n) = some ⟨negative, Text.natural n, [], none⟩ := by
  have nothing : Numeral.exponent? [] = some none := rfl
  have spelled := unsigned?_spelled negative (isWhole_natural n) (List.forall_mem_nil _) nothing
  rwa [pointed, List.nil_append, List.append_nil] at spelled

/-- The parts of a written whole number. -/
theorem parse?_integer (n : Int) :
    Numeral.parse? (Text.integer n) = some ⟨decide (n < 0), Text.natural n.natAbs, [], none⟩ := by
  cases n with
  | ofNat n =>
    have notNegative : decide (Int.ofNat n < 0) = false := decide_eq_false (by simp)
    rw [notNegative]
    exact parse?_signed (unsigned?_natural false n)
  | negSucc n =>
    have negative : decide (Int.negSucc n < 0) = true := decide_eq_true (Int.negSucc_lt_zero n)
    rw [negative]
    exact parse?_signed (unsigned?_natural true (n + 1))

/-- The number that a written whole number denotes. -/
theorem integer?_written (n : Int) :
    Numeral.integer? ⟨decide (n < 0), Text.natural n.natAbs, [], none⟩ = Integer.ofInt? n := by
  have magnitude : Text.digitsValue (Text.natural n.natAbs) = n.natAbs :=
    Nat.ofDigitChars_ten_toDigits
  simp only [Numeral.integer?, Numeral.isWhole, List.isEmpty_nil, Option.isNone_none, Bool.and_self,
    if_true, magnitude, decide_eq_true_eq]
  split
  · next negative =>
    rw [if_neg (by omega)]
    congr 1
    omega
  · congr 1
    omega

/-! ## Values -/

theorem walks_digits {run cs : List Char} (opened : List Bracket)
    (numeric : ∀ c ∈ cs, isNumeric c = true) :
    Walks (.number run) opened cs (.number (cs.reverse ++ run)) opened := by
  induction cs generalizing run with
  | nil => exact Walks.nil
  | cons c rest ih =>
    have step_eq : step opened (.number run) (some c) = .more (.number (c :: run)) opened := by
      rw [step, if_pos (numeric c (by simp))]
    rw [List.reverse_cons, List.append_assoc]
    exact Walks.cons step_eq (ih fun c hc => numeric c (List.mem_cons_of_mem _ hc))

/-- A spelled number ends where no character of a number follows. -/
theorem ends_number {run : List Char} (opened : List Bracket) (spelled : spellsNumber run = true) :
    Ends (.number run) opened [] opened := by
  intro seen rest delimited
  show cut seen (.number run) opened rest = resume seen opened rest
  cases rest with
  | nil =>
    cases opened with
    | nil => simp [cut, spelled, resume_nil]
    | cons b outer => simp [cut, resume_cons]
  | cons g rest =>
    obtain ⟨c, rfl, mark⟩ := delimited g rfl
    cases opened with
    | nil => simp [cut, step, mark, spelled, resume_nil]
    | cons b outer =>
      rw [resume_cons, cut, cut, step, step, if_neg (by simp [mark]), if_pos spelled,
        if_neg (by simp)]

theorem isNumeric_of_isDigit {c : Char} (h : c.isDigit = true) : isNumeric c = true := by
  simp [isNumeric, h]

/-- A text that spells a number is a value. -/
theorem isValue_of_number {c : Char} {rest : List Char} (first : c = '-' ∨ c.isDigit = true)
    (numeric : ∀ d ∈ rest, isNumeric d = true) (spelled : (Numeral.parse? (c :: rest)).isSome) :
    IsValue (c :: rest) := by
  -- Nothing else that a value or a space begins with is a sign or a digit.
  have ne : ∀ d : Char, d ≠ '-' → d.isDigit = false → c ≠ d := by
    rintro d notMinus notDigit rfl
    rcases first with minus | digit
    · exact notMinus minus
    · rw [notDigit] at digit
      cases digit
  have notSpace : isSpace c = false := by
    simp [isSpace, ne ' ' (by decide) rfl, ne '\t' (by decide) rfl, ne '\n' (by decide) rfl,
      ne '\r' (by decide) rfl]
  have begins : ∀ opened, step opened .value (some c) = .more (.number [c]) opened := by
    intro opened
    rw [step, if_neg (by simp [notSpace]), begin?, if_neg (ne '"' (by decide) rfl),
      if_neg (ne '[' (by decide) rfl), if_neg (ne '\x7b' (by decide) rfl),
      if_neg (ne 't' (by decide) rfl), if_neg (ne 'f' (by decide) rfl),
      if_neg (ne 'n' (by decide) rfl), if_pos first]
  refine ⟨⟨c, rest, rfl, notSpace, ne ']' (by decide) rfl⟩, fun opened => ?_⟩
  have spells : spellsNumber (rest.reverse ++ [c]) = true := by
    rw [spellsNumber, List.reverse_append, List.reverse_reverse]
    exact spelled
  have ends := (walks_digits opened numeric).ends (ends_number opened spells)
  rw [List.append_nil] at ends
  exact Ends.cons (begins opened) ends

/-- A written whole number is a value. -/
theorem isValue_integer (n : Int) : IsValue (Text.integer n) := by
  have spelled : (Numeral.parse? (Text.integer n)).isSome = true := by rw [parse?_integer]; rfl
  cases n with
  | ofNat n =>
    obtain ⟨c, rest, eq⟩ := List.exists_cons_of_ne_nil (Text.natural_ne_nil n)
    have digits : ∀ d ∈ c :: rest, d.isDigit = true := fun d hd =>
      Text.isDigit_of_mem_natural (eq ▸ hd)
    rw [Text.integer, eq] at spelled ⊢
    exact isValue_of_number (.inr (digits c (by simp)))
      (fun d hd => isNumeric_of_isDigit (digits d (List.mem_cons_of_mem _ hd))) spelled
  | negSucc n =>
    exact isValue_of_number (.inl rfl)
      (fun d hd => isNumeric_of_isDigit (Text.isDigit_of_mem_natural hd)) spelled

/-! ## Reading back -/

theorem head_integer (n : Int) :
    ∃ c rest, Text.integer n = c :: rest ∧ isNumeric c = true := by
  cases n with
  | ofNat n =>
    obtain ⟨c, rest, eq⟩ := List.exists_cons_of_ne_nil (Text.natural_ne_nil n)
    exact ⟨c, rest, eq, isNumeric_of_isDigit (Text.isDigit_of_mem_natural (n := n) (by simp [eq]))⟩
  | negSucc n => exact ⟨'-', _, rfl, rfl⟩

/-- A written whole number is read back, if it fits. -/
theorem whole?_integer {n : Int} (lower : -0x8000000000000000 ≤ n)
    (upper : n < 0x10000000000000000) :
    whole? ((Text.integer n).map some) = some n := by
  have numeral : numeral? ((Text.integer n).map some)
      = some ⟨decide (n < 0), Text.natural n.natAbs, [], none⟩ := by
    obtain ⟨c, rest, eq, numeric⟩ := head_integer n
    rw [← parse?_integer, eq, List.map_cons, numeral?, if_pos numeric, ← List.map_cons,
      chars?_map_some]
    rfl
  rw [whole?, numeral, Option.bind_some, integer?_written, Integer.ofInt?, dif_pos ⟨lower, upper⟩]
  rfl

/-- A written signed 64-bit number is read back. -/
theorem int64?_integer (n : Int64) : int64? ((Text.integer n.toInt).map some) = some n := by
  have lower := Int64.le_toInt n
  have upper := Int64.toInt_lt n
  rw [int64?, whole?_integer lower (by omega)]
  have fits : n.toInt ≤ Int64.maxValue.toInt := by
    have : Int64.maxValue.toInt = 0x8000000000000000 - 1 := rfl
    omega
  show (if n.toInt ≤ Int64.maxValue.toInt then _ else _) = _
  rw [if_pos fits, Int64.ofInt_toInt]

end MarketStream.Json
