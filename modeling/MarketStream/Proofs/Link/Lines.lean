import MarketStream.Link.Inbound
import MarketStream.Proofs.Command.RoundTrip
import MarketStream.Proofs.Text.Glyphs

/-!
# Lines and bytes

The bytes of commands, cut after each end of a line, are the lines of these commands again: a byte
that ends a line comes from a line break and from nothing else, since the bytes of a character
outside ASCII are all large, and the only line break of a command is its last character.

* `newline_notMem_utf8` — a text without line breaks has no byte of one;
* `cutLines_flatMap` — texts without line breaks, each with one behind it, are cut apart again;
* `wire`, `cutLines_wire` — the bytes of commands.
-/

namespace MarketStream.Link

/-- The end of a line comes from a line break. -/
theorem newline_notMem_utf8 {cs : List Char} (h : '\n' ∉ cs) : newline ∉ utf8 cs := by
  intro mem
  obtain ⟨c, hc, byte⟩ := List.mem_flatMap.mp mem
  have same : c.toNat = '\n'.toNat := byte_of_small byte (by decide)
  exact h (Char.toNat_inj.mp same ▸ hc)

/-! ## Cutting -/

/-- Bytes before the end of a line belong to the line. -/
theorem cutOnto_append_newline {text : Bytes} (inside : newline ∉ text) (part : Bytes)
    (lines : List Bytes) (rest : Bytes) :
    cutOnto part lines (text ++ newline :: rest)
      = cutOnto [] ((part.reverse ++ text ++ [newline]) :: lines) rest := by
  induction text generalizing part with
  | nil =>
    rw [List.nil_append, cutOnto, if_pos rfl, List.reverse_cons, List.append_nil]
  | cons b text ih =>
    have first : b ≠ newline := (List.ne_of_not_mem_cons inside).symm
    have others : newline ∉ text := List.not_mem_of_not_mem_cons inside
    rw [List.cons_append, cutOnto, if_neg first, ih others, List.reverse_cons,
      List.append_assoc part.reverse]
    rfl

theorem cutOnto_flatMap {texts : List Bytes} (inside : ∀ text ∈ texts, newline ∉ text)
    (lines : List Bytes) :
    cutOnto [] lines (texts.flatMap (· ++ [newline]))
      = (lines.reverse ++ texts.map (· ++ [newline]), []) := by
  induction texts generalizing lines with
  | nil => simp [cutOnto]
  | cons text rest ih =>
    obtain ⟨first, others⟩ := List.forall_mem_cons.mp inside
    rw [List.flatMap_cons, List.append_assoc, List.singleton_append,
      cutOnto_append_newline first, ih others, List.reverse_cons, List.map_cons]
    simp

/-- Texts without line breaks, each with one behind it, are cut apart again. -/
theorem cutLines_flatMap {texts : List Bytes} (inside : ∀ text ∈ texts, newline ∉ text) :
    cutLines [] (texts.flatMap (· ++ [newline])) = (texts.map (· ++ [newline]), []) :=
  cutOnto_flatMap inside []

/-! ## Commands -/

/-- The bytes that commands are sent as. -/
def wire (commands : List Command) : Bytes := commands.flatMap fun c => utf8 c.line

theorem utf8_line (c : Command) : utf8 c.line = utf8 c.write ++ [newline] :=
  List.flatMap_append ..

/-- **One line for each command.** The bytes of commands, cut after each end of a line, are the
lines of these commands in their order, and nothing is left. -/
theorem cutLines_wire (commands : List Command) :
    cutLines [] (wire commands) = (commands.map fun c => utf8 c.line, []) := by
  have texts : wire commands
      = (commands.map fun c => utf8 c.write).flatMap (· ++ [newline]) := by
    simp only [wire, List.flatMap_map, utf8_line]
  have inside : ∀ text ∈ commands.map fun c => utf8 c.write, newline ∉ text := by
    intro text mem
    obtain ⟨c, -, rfl⟩ := List.mem_map.mp mem
    exact newline_notMem_utf8 c.printable_write.newline_notMem
  rw [texts, cutLines_flatMap inside, List.map_map]
  simp only [Function.comp_def, utf8_line]

end MarketStream.Link
