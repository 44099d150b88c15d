import MarketStream.Proofs.Json.Value

/-!
# Fields read back

What a declared field holds is read back from its text: a truth value, a number, a text, a list of
these, or one of these or nothing.

* `truth?_bool`, `uint64?_natural`, `float?_writeFloat` — scalars;
* `optional?_quote`, `optional?_integer`, `optional?_null` — scalars that may be absent;
* `each?_list` — lists;
* `IsScalar` — the texts of scalars, which are readable as values too;
* `int64?_eq_some_iff` — which texts are read as a signed 64-bit number.
-/

namespace MarketStream.Json

/-- Reading one part and then the others. -/
theorem read_then {α β : Type} {first : Option α} {others : α → Option β} {a : α} {b : β}
    (part : first = some a) (rest : others a = some b) : (first >>= others) = some b :=
  Option.bind_eq_some_iff.mpr ⟨a, part, rest⟩

/-! ## Scalars -/

/-- A written truth value is read back. -/
theorem truth?_bool (b : Bool) : truth? ((writeBool b).map some) = some b := by
  cases b <;> rfl

/-- A written unsigned 64-bit number is read back. -/
theorem uint64?_natural (n : UInt64) : uint64? ((Text.natural n.toNat).map some) = some n := by
  have lower : -0x8000000000000000 ≤ (n.toNat : Int) := by omega
  have upper : (n.toNat : Int) < 0x10000000000000000 := by
    have := n.toNat_lt
    omega
  have whole : whole? ((Text.natural n.toNat).map some) = some (n.toNat : Int) :=
    whole?_integer lower upper
  rw [uint64?, whole, Option.bind_some, if_pos (Int.natCast_nonneg _), Int.toNat_natCast,
    UInt64.ofNat_toNat]

/-- A spelled number is read by its parts. -/
theorem numeral?_of_spelled {cs : List Char} {n : Numeral} (h : Numeral.parse? cs = some n) :
    numeral? (cs.map some) = some n := by
  obtain ⟨c, rest, rfl, first, -⟩ := spelled_cases h
  have numeric : isNumeric c = true := by
    rcases first with rfl | digit
    · rfl
    · exact isNumeric_of_isDigit digit
  rw [List.map_cons, numeral?, if_pos numeric, ← List.map_cons, chars?_map_some, Option.bind_some, h]

/-- A numeral is any text that spells a number. -/
theorem numeral?_eq (input : Input) :
    numeral? input = (Glyph.chars? input).bind Numeral.parse? := by
  rw [numeral?.eq_def]
  split
  · next c rest =>
    split
    · rfl
    · next notNumeric =>
      symm
      rw [Option.bind_eq_none_iff]
      intro cs chars
      refine Option.eq_none_iff_forall_ne_some.mpr fun n spelled => notNumeric ?_
      obtain ⟨d, _, rfl, first, -⟩ := spelled_cases spelled
      obtain rfl := Option.some.inj (List.cons.inj (eq_map_some_of_chars? chars)).1
      rcases first with rfl | digit
      · rfl
      · exact isNumeric_of_isDigit digit
  · next other =>
    cases input with
    | nil => rfl
    | cons g rest =>
      cases g with
      | none => rfl
      | some c => exact absurd rfl (other c rest)

/-- A written measured number is read as itself if its text reads back. -/
theorem float?_writeFloat {x : Binary64} (h : ReadsBack x) :
    float? ((writeFloat x).map some) = some x := by
  obtain ⟨n, parts, read, -⟩ := h.exists_numeral
  rw [float?, numeral?_of_spelled parts, Option.bind_some, read]

theorem isValue_writeFloat (x : Binary64) : IsValue (writeFloat x) := by
  obtain ⟨n, parts, -⟩ := parse?_writeFloat x
  exact isValue_of_spelled parts

/-! ## What may be absent -/

section

variable {α : Type} {read : Input → Option α}

/-- The absent value is read as nothing. -/
theorem optional?_null : optional? read (writeNull.map some) = some none := rfl

/-- Any other value is read as something. -/
theorem optional?_of_not_isNull {text : List Char} {a : α} (notNull : isNull (text.map some) = false)
    (h : read (text.map some) = some a) : optional? read (text.map some) = some (some a) := by
  rw [optional?, notNull, if_neg Bool.false_ne_true, h, Option.map_some]

/-- A quoted text is something. -/
theorem optional?_quote (s : String) : optional? text? ((quote s).map some) = some (some s) :=
  optional?_of_not_isNull rfl (string?_quote s)

/-- A written number is something. -/
theorem optional?_integer (n : Int64) :
    optional? int64? ((Text.integer n.toInt).map some) = some (some n) := by
  obtain ⟨c, rest, eq, numeric⟩ := head_integer n.toInt
  refine optional?_of_not_isNull ?_ (int64?_integer n)
  have ne : c ≠ 'n' := by
    rintro rfl
    cases numeric
  rw [eq, List.map_cons, isNull, List.head?_cons]
  simpa using ne

/-! ## Lists -/

/-- A written list is read back if its items are. -/
theorem each?_list {write : α → List Char} (values : ∀ a, IsValue (write a))
    (back : ∀ a, read ((write a).map some) = some a) (as : List α) :
    each? read ((list (as.map write)).map some) = some as := by
  have isValue : ∀ text ∈ as.map write, IsValue text := by
    intro text h
    obtain ⟨a, -, rfl⟩ := List.mem_map.mp h
    exact values a
  have items : (as.map fun a => (write a).map some).mapM read
      = if as.all (fun _ => true) then some (as.map id) else none := mapM_map_ite fun a _ => back a
  rw [List.map_id, if_pos (List.all_eq_true.mpr fun _ _ => rfl)] at items
  rw [each?, items?_list isValue, Option.bind_some, List.map_map]
  exact items

end

/-! ## Scalars as values -/

/-- The text of a scalar: a value that is readable however deep it stands. -/
structure IsScalar (text : List Char) : Prop where
  /-- It is a value. -/
  isValue : IsValue text
  /-- It can be read as one. -/
  readable : ∀ room, (readFlat? room (text.map some)).isSome = true

theorem isScalar_quote (s : String) : IsScalar (quote s) := by
  refine ⟨isValue_quote s, fun room => ?_⟩
  have read : readFlat? room ((quote s).map some) = (string? ((quote s).map some)).map .string := by
    rw [readFlat?, readHolding?.eq_def]
    rfl
  rw [read, string?_quote]
  rfl

theorem isScalar_bool (b : Bool) : IsScalar (writeBool b) := by
  refine ⟨isValue_bool b, fun room => ?_⟩
  rw [readFlat?, readHolding?.eq_def]
  cases b <;> rfl

theorem isScalar_integer (n : Int64) : IsScalar (Text.integer n.toInt) := by
  refine ⟨isValue_integer _, fun room => ?_⟩
  rw [readFlat?, readHolding?_of_spelled (parse?_integer n.toInt), Numeral.value?, integer?_written,
    Integer.ofInt?, dif_pos ⟨(Integer.ofInt64 n).lower, (Integer.ofInt64 n).upper⟩]
  rfl

/-- A text that spells no number is not read as a whole one. -/
theorem readFlat?_ne_integer {input : Input} (h : (Glyph.chars? input).bind Numeral.parse? = none)
    (room : Nat) (i : Integer) : readFlat? room input ≠ some (.integer i) := by
  intro read
  -- Brackets, texts and words have values of other kinds, and all else would have to be a numeral.
  rw [readFlat?, readHolding?.eq_def] at read
  split at read
  · split at read
    · cases read
    · simp [Option.bind_eq_some_iff, objectOf?] at read
  · split at read
    · cases read
    · simp [Option.bind_eq_some_iff] at read
  · simp at read
  · cases read
  · cases read
  · cases read
  · rw [h] at read
    cases read

/-- A numeral denotes a signed 64-bit number if its value is that number. -/
theorem int64?_eq_some_iff {input : Input} {n : Int64} (room : Nat) :
    int64? input = some n ↔ readFlat? room input = some (.ofInt64 n) := by
  have integer (i : Integer) :
      (if i.val ≤ Int64.maxValue.toInt then some (Int64.ofInt i.val) else none) = some n
        ↔ i = .ofInt64 n := by
    rw [Option.ite_none_right_eq_some, Option.some_inj]
    constructor
    · rintro ⟨le, rfl⟩
      have exact := Int64.toInt_ofInt_of_le i.lower (Int.lt_add_one_of_le le)
      cases i
      exact Integer.mk.injEq .. ▸ exact.symm
    · rintro rfl
      exact ⟨Int64.toInt_le n, Int64.ofInt_toInt n⟩
  rw [int64?, whole?, numeral?_eq]
  cases spelled : (Glyph.chars? input).bind Numeral.parse? with
  | none =>
    rw [Option.bind_none, Option.map_none, Option.bind_none]
    exact iff_of_false (Option.some_ne_none n).symm (readFlat?_ne_integer spelled room _)
  | some m =>
    obtain ⟨cs, chars, parsed⟩ := Option.bind_eq_some_iff.mp spelled
    have read : readFlat? room input = m.value? := by
      rw [eq_map_some_of_chars? chars]
      exact readHolding?_of_spelled parsed none room
    rw [read, Numeral.value?, Option.bind_some]
    cases m.integer? with
    | none => simp [Value.ofInt64]
    | some i => simpa [Value.ofInt64] using integer i

end MarketStream.Json
