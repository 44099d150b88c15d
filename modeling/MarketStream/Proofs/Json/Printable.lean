import MarketStream.Proofs.Json.Value

/-!
# Written texts stay on one line

Whatever characters a value holds, its text has no control character: those inside strings are
escaped, and everything else that is written is a mark, a digit or a letter. In particular there is
no line break in it.

* `Printable` — a text without control characters;
* `printable_quote`, `printable_of_spelled`, `printable_list`, `printable_record` — the kinds of
  text;
* `Value.printable_write` — the text of a value.
-/

namespace MarketStream.Json

/-- A text without control characters. -/
def Printable (text : List Char) : Prop := ∀ c ∈ text, isControl c = false

instance (text : List Char) : Decidable (Printable text) :=
  List.decidableBAll (isControl · = false) text

theorem printable_cons {c : Char} {text : List Char} :
    Printable (c :: text) ↔ isControl c = false ∧ Printable text := List.forall_mem_cons

theorem printable_append {a b : List Char} : Printable (a ++ b) ↔ Printable a ∧ Printable b :=
  List.forall_mem_append

/-- There is no line break in a text without control characters. -/
theorem Printable.newline_notMem {text : List Char} (h : Printable text) : '\n' ∉ text := by
  intro mem
  cases h '\n' mem

/-! ## Texts -/

theorem isControl_hexDigit {n : Nat} (h : n < 16) : isControl (hexDigit n) = false := by
  revert n
  decide

/-- A character stands in a string without control characters. -/
theorem Escaped.printable {c : Char} {text : List Char} (h : Escaped c text) : Printable text := by
  cases h with
  | short e known eq =>
    have letters : Printable ['"', '\\', '/', 'b', 'f', 'n', 'r', 't'] := by decide
    exact printable_cons.mpr ⟨rfl, List.forall_mem_singleton.mpr (letters e known)⟩
  | hex control =>
    have first : isControl (hexDigit (c.toNat / 16)) = false := isControl_hexDigit (by omega)
    have second : isControl (hexDigit (c.toNat % 16)) = false := isControl_hexDigit (by omega)
    have digits : Printable [hexDigit (c.toNat / 16), hexDigit (c.toNat % 16)] :=
      List.forall_mem_cons.mpr ⟨first, List.forall_mem_singleton.mpr second⟩
    exact (printable_append (a := ['\\', 'u', '0', '0'])).mpr ⟨by decide, digits⟩
  | plain notQuote notSlash notControl => exact List.forall_mem_singleton.mpr notControl

/-- A quoted text has no control characters, whatever the text. -/
theorem printable_quote (s : String) : Printable (quote s) := by
  have inside : Printable (s.toList.flatMap escape) := by
    intro d hd
    obtain ⟨c, -, hc⟩ := List.mem_flatMap.mp hd
    exact (escaped_escape c).printable d hc
  exact printable_cons.mpr ⟨rfl, printable_append.mpr ⟨inside, by decide⟩⟩

/-! ## Numbers -/

theorem isControl_of_isDigit {c : Char} (h : c.isDigit = true) : isControl c = false := by
  rw [isControl, decide_eq_false_iff_not, Char.not_lt]
  have first : '0' ≤ c := by
    rw [Char.isDigit, Bool.and_eq_true, decide_eq_true_iff] at h
    exact h.1
  exact Char.le_trans (by decide) first

theorem isControl_of_isNumeric {c : Char} (h : isNumeric c = true) : isControl c = false := by
  simp only [isNumeric, Bool.or_eq_true, beq_iff_eq] at h
  obtain ((((digit | rfl) | rfl) | rfl) | rfl) | rfl := h
  · exact isControl_of_isDigit digit
  all_goals rfl

/-- A text that spells a number has no control characters. -/
theorem printable_of_spelled {cs : List Char} {n : Numeral} (h : Numeral.parse? cs = some n) :
    Printable cs := by
  obtain ⟨c, rest, rfl, first, numeric⟩ := spelled_cases h
  refine printable_cons.mpr ⟨?_, fun d hd => isControl_of_isNumeric (numeric d hd)⟩
  rcases first with rfl | digit
  · rfl
  · exact isControl_of_isDigit digit

/-! ## Lists and records -/

theorem printable_commas {parts : List (List Char)} (h : ∀ p ∈ parts, Printable p) :
    Printable (commas parts) := by
  induction parts with
  | nil => exact List.forall_mem_nil _
  | cons part rest ih =>
    obtain ⟨first, others⟩ := List.forall_mem_cons.mp h
    cases rest with
    | nil => exact first
    | cons next rest =>
      rw [commas_cons_cons]
      exact printable_append.mpr ⟨printable_append.mpr ⟨first, by decide⟩, ih others⟩

theorem printable_list {parts : List (List Char)} (h : ∀ p ∈ parts, Printable p) :
    Printable (list parts) :=
  printable_cons.mpr ⟨rfl, printable_append.mpr ⟨printable_commas h, by decide⟩⟩

theorem printable_record {entries : List (String × List Char)}
    (h : ∀ e ∈ entries, Printable e.2) : Printable (record entries) := by
  have members : ∀ p ∈ entries.map member, Printable p := by
    intro p hp
    obtain ⟨e, he, rfl⟩ := List.mem_map.mp hp
    exact printable_append.mpr ⟨printable_quote e.1, printable_cons.mpr ⟨rfl, h e he⟩⟩
  exact printable_cons.mpr ⟨rfl, printable_append.mpr ⟨printable_commas members, by decide⟩⟩

/-! ## Values -/

namespace Value

mutual
/-- The text of a value has no control characters. -/
theorem printable_write : (v : Value) → Printable v.write
  | .null => by
    rw [write]
    decide
  | .bool b => by
    rw [write]
    cases b <;> decide
  | .integer n => by
    rw [write]
    exact printable_of_spelled (parse?_integer n.val)
  | .float x => by
    obtain ⟨n, spelled, -⟩ := parse?_writeFloat x
    rw [write]
    exact printable_of_spelled spelled
  | .string s => by
    rw [write]
    exact printable_quote s
  | .array items => by
    rw [write]
    exact printable_list (printable_writeItems items)
  | .object members => by
    rw [write]
    exact printable_record (printable_writeMembers members)

/-- The texts of items have no control characters. -/
theorem printable_writeItems : (items : List Value) → ∀ p ∈ writeItems items, Printable p
  | [] => List.forall_mem_nil _
  | v :: rest => List.forall_mem_cons.mpr ⟨printable_write v, printable_writeItems rest⟩

/-- The texts of the values of members have no control characters. -/
theorem printable_writeMembers :
    (members : List (String × Value)) → ∀ e ∈ writeMembers members, Printable e.2
  | [] => List.forall_mem_nil _
  | (_, v) :: rest => List.forall_mem_cons.mpr ⟨printable_write v, printable_writeMembers rest⟩
end

end Value

end MarketStream.Json
