import MarketStream.Json.Sparse
import MarketStream.Proofs.Json.Scalar

/-!
# Records with parts left out

A record may leave out parts, each for itself. Its columns tell of every part that it may have what is
written there, if anything is. Whatever subset is left out, each declared field is read as what its
column says, so a record is read back if leaving a part out says the same as its default.

* `Columns` — what may be written; `Columns.present` — what is;
* `Columns.fields?_record` — a record is read as its columns;
* `Columns.textOr_fields`, `Columns.wholeOr_fields`, `Columns.measureOr_fields` — the parts of a sparse
  record, which are left out if they are zero or empty;
* `Columns.optional_fields` — a part that is left out if there is no value.
-/

namespace MarketStream.Json

/-- The parts that a record may have, with the texts of those that it has. -/
abbrev Columns := List (String × Option (List Char))

namespace Columns

/-- The parts that a record has. -/
def present (cs : Columns) : List (String × List Char) :=
  cs.filterMap fun c => c.2.map fun text => (c.1, text)

/-- The declared fields that say what the columns do. -/
def fields (cs : Columns) : Fields := ⟨cs.map fun c => (c.1, c.2.map (List.map some))⟩

/-- What stands in each column is a value. -/
def AreValues (cs : Columns) : Prop := ∀ c ∈ cs, ∀ text ∈ c.2, IsValue text

variable {cs : Columns}

theorem present_append (cs ds : Columns) : present (cs ++ ds) = present cs ++ present ds :=
  List.filterMap_append

theorem mem_present {e : String × List Char} : e ∈ cs.present ↔ (e.1, some e.2) ∈ cs := by
  rw [present, List.mem_filterMap]
  constructor
  · rintro ⟨⟨name, text?⟩, there, eq⟩
    obtain ⟨text, rfl, rfl⟩ := Option.map_eq_some_iff.mp eq
    exact there
  · exact fun there => ⟨_, there, rfl⟩

theorem AreValues.present (values : cs.AreValues) : ∀ e ∈ cs.present, IsValue e.2 :=
  fun e h => values _ (mem_present.mp h) e.2 rfl

theorem areValues_nil : AreValues [] := List.forall_mem_nil _

theorem areValues_cons {c : String × Option (List Char)} :
    AreValues (c :: cs) ↔ (∀ text ∈ c.2, IsValue text) ∧ cs.AreValues :=
  List.forall_mem_cons

/-- Parts that are left out leave the names of the others in order. -/
theorem names_present_sublist (cs : Columns) :
    (cs.present.map Prod.fst).Sublist (cs.map Prod.fst) := by
  induction cs with
  | nil => exact List.Sublist.refl []
  | cons c rest ih =>
    obtain ⟨name, text?⟩ := c
    cases text? with
    | none => exact ih.cons name
    | some text => exact ih.cons_cons name

/-- A part is found as what its column says. -/
theorem lookup_present {name : String} (once : (cs.map Prod.fst).Nodup) :
    cs.present.lookup name = (cs.lookup name).join := by
  induction cs with
  | nil => rfl
  | cons c rest ih =>
    obtain ⟨k, text?⟩ := c
    obtain ⟨new, rest_once⟩ := List.nodup_cons.mp once
    rw [lookup_cons_ite]
    cases text? with
    | some text =>
      show ((k, text) :: present rest).lookup name = _
      rw [lookup_cons_ite, ih rest_once]
      split <;> rfl
    | none =>
      show (present rest).lookup name = _
      rw [ih rest_once]
      split
      · next same =>
        -- No later column has the name of one that is left out.
        rw [lookup_eq_none_of_not_mem (same ▸ new)]
        rfl
      · rfl

/-- What was written by columns is found as the columns. -/
theorem given_present (once : (cs.map Prod.fst).Nodup) :
    given (cs.map Prod.fst) cs.present = cs.fields := by
  rw [given, fields, List.map_map]
  congr 1
  refine List.map_congr_left ?_
  rintro ⟨name, text?⟩ there
  show (name, _) = (name, _)
  rw [lookup_found, lookup_present once, lookup_eq_some_of_mem once there]
  rfl

/-- Written parts are read as the columns. -/
theorem namedFields?_found (once : (cs.map Prod.fst).Nodup) :
    namedFields? (cs.map Prod.fst) (cs.present.map found) = some cs.fields := by
  rw [Json.namedFields?_found _ (once.sublist cs.names_present_sublist), given_present once]

/-- A written record is read as the columns. -/
theorem fields?_record (values : cs.AreValues) (once : (cs.map Prod.fst).Nodup) :
    fields? (cs.map Prod.fst) ((record cs.present).map some) = some cs.fields := by
  rw [Json.fields?_record _ values.present (once.sublist cs.names_present_sublist),
    given_present once]

/-- A record is decoded by reading the columns. -/
theorem decode_then {α : Type} {others : Fields → Option α} {a : α} (values : cs.AreValues)
    (once : (cs.map Prod.fst).Nodup) (rest : others cs.fields = some a) :
    (document? (utf8 (record cs.present))).bind
      (fun input => fields? (cs.map Prod.fst) input >>= others) = some a := by
  rw [document?_utf8 (isValue_record values.present), Option.bind_some]
  exact read_then (fields?_record values once) rest

/-! ## Reading the fields -/

variable {α : Type} {name : String} {read : Input → Option α} {text : List Char} {a : α}
  {text? : Option (List Char)}

theorem field?_fields (h : cs.lookup name = some text?) :
    cs.fields.field? name = text?.map (List.map some) := by
  rw [Fields.field?, fields, lookup_map_value (fun _ => Option.map (List.map some)), h]
  rfl

theorem orElse_fields (h : cs.lookup name = some text?) (default : α) :
    cs.fields.orElse name default read
      = (text?.map fun text => read (text.map some)).getD (some default) := by
  rw [Fields.orElse, field?_fields h]
  cases text? <;> rfl

/-- A part that must be there is read back if its text is. -/
theorem required_fields_of_some (h : cs.lookup name = some (some text))
    (back : read (text.map some) = some a) : cs.fields.required name read = some a := by
  rw [Fields.required, field?_fields h]
  exact back

/-- A part with a default that is there is read back if its text is. -/
theorem orElse_fields_of_some {default : α} (h : cs.lookup name = some (some text))
    (back : read (text.map some) = some a) : cs.fields.orElse name default read = some a := by
  rw [orElse_fields h]
  exact back

/-- A part that is left out if there is no value. -/
theorem optional_fields {x : Option α} {write : α → List Char}
    (h : cs.lookup name = some (x.map write))
    (back : ∀ a, optional? read ((write a).map some) = some (some a)) :
    cs.fields.orElse name none (optional? read) = some x := by
  rw [orElse_fields h]
  cases x with
  | none => rfl
  | some a => exact back a

end Columns

/-! ## Sparse records -/

/-- The column of a text. -/
def textColumn (s : String) : Option (List Char) := if s = "" then none else some (quote s)

/-- The column of a whole number. -/
def wholeColumn (n : Int64) : Option (List Char) :=
  if n = 0 then none else some (Text.integer n.toInt)

/-- The column of a measured number. -/
def measureColumn (x : Binary64) : Option (List Char) :=
  if x.isZero then none else some (writeFloat x)

theorem sparseText_eq (name : String) (s : String) :
    sparseText name s = Columns.present [(name, textColumn s)] := by
  rw [sparseText, textColumn]
  split <;> rfl

theorem sparseWhole_eq (name : String) (n : Int64) :
    sparseWhole name n = Columns.present [(name, wholeColumn n)] := by
  rw [sparseWhole, wholeColumn]
  split <;> rfl

theorem sparseMeasure_eq (name : String) (x : Binary64) :
    sparseMeasure name x = Columns.present [(name, measureColumn x)] := by
  rw [sparseMeasure, measureColumn]
  split <;> rfl

namespace Columns

variable {cs : Columns} {name : String}

theorem areValues_textColumn {s : String} :
    AreValues ((name, textColumn s) :: cs) ↔ cs.AreValues := by
  rw [areValues_cons, textColumn]
  split <;> simp [isValue_quote]

theorem areValues_wholeColumn {n : Int64} :
    AreValues ((name, wholeColumn n) :: cs) ↔ cs.AreValues := by
  rw [areValues_cons, wholeColumn]
  split <;> simp [isValue_integer]

theorem areValues_measureColumn {x : Binary64} :
    AreValues ((name, measureColumn x) :: cs) ↔ cs.AreValues := by
  rw [areValues_cons, measureColumn]
  split <;> simp [isValue_writeFloat]

/-- A text is read back, whether it is written or left out. -/
theorem textOr_fields {s : String} (h : cs.lookup name = some (textColumn s)) :
    cs.fields.textOr name = some s := by
  rw [Fields.textOr, orElse_fields h, textColumn]
  split
  · next empty => rw [empty]; rfl
  · exact string?_quote s

/-- A whole number is read back, whether it is written or left out. -/
theorem wholeOr_fields {n : Int64} (h : cs.lookup name = some (wholeColumn n)) :
    cs.fields.wholeOr name = some n := by
  rw [Fields.wholeOr, orElse_fields h, wholeColumn]
  split
  · next zero => rw [zero]; rfl
  · exact int64?_integer n

/-- A measured number is read back, whether it is written or left out, but for the sign of a zero. -/
theorem measureOr_fields {x : Binary64} (h : cs.lookup name = some (measureColumn x))
    (back : x.isZero = false → ReadsBack x) : cs.fields.measureOr name = some x.unsignedZero := by
  rw [Fields.measureOr, orElse_fields h, measureColumn, Binary64.unsignedZero]
  split
  · rfl
  · next notZero => exact float?_writeFloat (back (eq_false_of_ne_true notZero))

end Columns

end MarketStream.Json
