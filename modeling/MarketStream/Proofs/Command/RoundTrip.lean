import MarketStream.Command
import MarketStream.Proofs.Json.Nesting
import MarketStream.Proofs.Json.Printable
import MarketStream.Proofs.Json.Record

/-!
# Commands survive being written

The line of a command has one line break, its last character, whatever the name and the arguments
hold. If the measured numbers in the arguments are read back, the line is read back as the command if
the arguments are plain and their brackets do not nest too deep; those of a login always are, and have
no measured numbers.

* `printable_write` — there is no line break before the last character of a line;
* `decode?_line_eq_some_iff` — which commands are read back from their lines;
* `decode?_line_login` — a login is one of them.
-/

namespace MarketStream.Command

open Json

/-- The names of the parts of a command. -/
def parts : List String := ["cmd", "args"]

/-- What stands under each name of a written command. -/
def entries (c : Command) : List (String × List Char) :=
  [("cmd", quote c.name), ("args", c.args.write)]

theorem write_eq (c : Command) : c.write = record c.entries := rfl

/-- The text of a command has no control characters. -/
theorem printable_write (c : Command) : Printable c.write := by
  refine printable_record ?_
  simp [printable_quote, Value.printable_write]

/-! ## Reading a line -/

/-- A line break after a value does not belong to it. -/
theorem document?_line {text : List Char} (h : IsValue text) :
    document? (utf8 (text ++ ['\n'])) = some (text.map some) := by
  have extent : extent? (text.map some ++ [some '\n']) = some (text.map some, [some '\n']) :=
    h.extent?_eq (delimited_cons (by decide) [])
  have spaces : [some '\n'].all isSpaceGlyph = true := by decide
  rw [document?, glyphs_utf8, List.map_append, List.map_singleton, alone?, extent]
  exact if_pos spaces

/-- A line is read as the name of the command with what its arguments are read as. -/
theorem decode?_line {c : Command} (value : IsValue c.args.write) :
    decode? (utf8 c.line) = (value? (c.args.write.map some)).map fun args => ⟨c.name, args⟩ := by
  have values : ∀ e ∈ c.entries, IsValue e.2 := by
    simp [entries, isValue_quote, value]
  have once : (c.entries.map Prod.fst).Nodup := by simp [entries]
  have document : document? (utf8 c.line) = some ((record c.entries).map some) :=
    document?_line (isValue_record values)
  have fields : fields? parts ((record c.entries).map some) = some (given parts c.entries) :=
    fields?_record parts values once
  have name : (given parts c.entries).required "cmd" Json.text? = some c.name := by
    rw [required_given (n := "cmd") (by simp [parts]) rfl, Json.text?, string?_quote]
  have args : (given parts c.entries).required "args" value? = value? (c.args.write.map some) :=
    required_given (by simp [parts]) rfl
  rw [decode?, document, Option.bind_some, read?]
  show (fields? parts _).bind _ = _
  rw [fields, Option.bind_some]
  show ((given parts c.entries).required "cmd" Json.text?).bind _ = _
  rw [name, Option.bind_some]
  show ((given parts c.entries).required "args" value?).bind _ = _
  rw [args]
  cases value? (c.args.write.map some) <;> rfl

/-- The arguments of a command that was read are tidy. -/
theorem tidy_of_decode? {bytes : Bytes} {c : Command} (h : decode? bytes = some c) :
    c.args.Tidy := by
  obtain ⟨input, -, h⟩ := Option.bind_eq_some_iff.mp h
  obtain ⟨fields, -, h⟩ := Option.bind_eq_some_iff.mp h
  obtain ⟨name, -, h⟩ := Option.bind_eq_some_iff.mp h
  obtain ⟨args, found, h⟩ := Option.bind_eq_some_iff.mp h
  obtain rfl := Option.some.inj h
  obtain ⟨text, -, read⟩ := Option.bind_eq_some_iff.mp found
  exact tidy_of_read? read

/-- **Commands are read back.** If the measured numbers in its arguments are, a command is read back
from its line if every object in its arguments has an ordinary first key and their brackets nest at
most 126 deep, and not otherwise. -/
theorem decode?_line_eq_some_iff {c : Command} (floats : ∀ x ∈ c.args.floats, ReadsBack x) :
    decode? (utf8 c.line) = some c ↔ c.args.Plain ∧ c.args.depth ≤ roomyField := by
  rw [plain_and_depth_le_iff]
  constructor
  · intro h
    have tidy := tidy_of_decode? h
    rw [decode?_line (isValue_write tidy), value?, Json.read?, readHolding?_write tidy floats] at h
    refine ⟨tidy, Bool.of_not_eq_false fun illegible => ?_⟩
    rw [illegible] at h
    cases h
  · rintro ⟨tidy, legible⟩
    rw [decode?_line (isValue_write tidy), value?, Json.read?, readHolding?_write tidy floats,
      if_pos legible]
    rfl

/-! ## Logins -/

/-- The arguments of a login are simple, and their brackets nest at most twice. -/
theorem simple_login (sessionKey : String) (replay : Option LoginReplay) :
    (login sessionKey replay).args.Simple 2 := by
  have session : Fits 1 ("session_key", .string sessionKey) :=
    ⟨by simp [reservedKey], .string sessionKey, Nat.zero_le 1, rfl⟩
  have state (state : Value) (h : state.Simple 1) : Fits 1 ("get_state", state) :=
    ⟨by simp [reservedKey], h⟩
  have days (n : Int64) : Fits 0 ("days", .ofInt64 n) :=
    ⟨by simp [reservedKey], .integer (.ofInt64 n), Nat.le_refl 0, rfl⟩
  have deleted (b : Bool) : Fits 0 ("deleted_orders", .bool b) :=
    ⟨by simp [reservedKey], .bool b, Nat.le_refl 0, rfl⟩
  cases replay with
  | none => exact simple_ofList (List.forall_mem_singleton.mpr session)
  | some r =>
    refine simple_ofList (List.forall_mem_cons.mpr
      ⟨session, List.forall_mem_singleton.mpr (state _ (simple_ofList ?_))⟩)
    cases r.days with
    | none => exact List.forall_mem_singleton.mpr (deleted r.deletedOrders)
    | some n =>
      exact List.forall_mem_cons.mpr
        ⟨days n, List.forall_mem_singleton.mpr (deleted r.deletedOrders)⟩

/-- A login is read back from its line. -/
theorem decode?_line_login (sessionKey : String) (replay : Option LoginReplay) :
    decode? (utf8 (login sessionKey replay).line) = some (login sessionKey replay) := by
  obtain ⟨plain, shallow, floats⟩ := simple_login sessionKey replay
  refine (decode?_line_eq_some_iff ?_).mpr ⟨plain, Nat.le_trans shallow (by decide)⟩
  rw [floats]
  exact List.forall_mem_nil _

end MarketStream.Command
