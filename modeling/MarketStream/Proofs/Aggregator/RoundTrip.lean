import MarketStream.Aggregator.Admin
import MarketStream.Proofs.Settings.RoundTrip

/-!
# Requests survive being written

The key of a stream is a record, and a request to an aggregator is one that has the name of its command
among its parts. A part that is left out reads as its default, and only the default is ever left out. So
keys and requests are read back as what they were, and so are settings; no two of them have one text.

* `StreamKey.decode?_write` — keys;
* `AdminRequest.decode?_write` — requests;
* `requests_keys_settings_survive` — all of them.
-/

namespace MarketStream

open Json Columns

/-! ## Keys -/

namespace StreamKey

/-- The part of a source, if there is one. -/
def sourceColumn (source : Option Int64) : Option (List Char) :=
  source.map fun n => Text.integer n.toInt

/-- What is written of a key. -/
def columns (k : StreamKey) : Columns :=
  [("type", some (quote k.kindName)), ("id", some (quote k.identifier)),
    ("market", some (quote k.market)), ("source", sourceColumn k.source),
    ("delay", some (writeBool k.delay))]

theorem write_eq (k : StreamKey) : k.write = record k.columns.present := by
  rw [write, columns, sourceColumn]
  cases k.source <;> rfl

theorem isScalar_columns (k : StreamKey) : ∀ c ∈ k.columns, ∀ text ∈ c.2, IsScalar text := by
  rw [columns, sourceColumn]
  cases k.source <;> simp [isScalar_quote, isScalar_integer, isScalar_bool]

/-- The source of a key is read back, if there is one. -/
theorem source_fields {cs : Columns} {source : Option Int64}
    (h : cs.lookup "source" = some (sourceColumn source)) :
    cs.fields.orElse "source" none (optional? int64?) = some source :=
  optional_fields h optional?_integer

/-- A key is read back from its text. -/
theorem decode?_write (k : StreamKey) : decode? (utf8 k.write) = some k := by
  have values : k.columns.AreValues := fun c hc text h => (k.isScalar_columns c hc text h).isValue
  rw [decode?, write_eq]
  exact decode_then values (by simp [columns]) <|
    read_then (required_fields_of_some rfl (string?_quote _)) <|
    read_then (orElse_fields_of_some rfl (string?_quote _)) <|
    read_then (orElse_fields_of_some rfl (string?_quote _)) <| read_then (source_fields rfl) <|
    read_then (orElse_fields_of_some rfl (truth?_bool _)) <| rfl

end StreamKey

/-! ## Requests -/

namespace AdminRequest

/-- What is written of a request besides its command. -/
def columns : AdminRequest → Columns
  | .subscribe k => k.columns
  | .unsubscribe id => [("subId", some (quote id))]
  | .last kindName identifier market source =>
    [("type", some (quote kindName)), ("id", some (quote identifier)),
      ("market", some (quote market)), ("source", StreamKey.sourceColumn source)]
  | .state identifier market => [("id", identifier.map quote), ("market", market.map quote)]
  | .orders | .status => []

variable (r : AdminRequest)

theorem members_eq : r.members = r.columns.present := by
  cases r with
  | subscribe k =>
    rw [members, columns, StreamKey.columns, StreamKey.sourceColumn]
    cases k.source <;> rfl
  | last kindName identifier market source => cases source <;> rfl
  | state identifier market => cases identifier <;> cases market <;> rfl
  | unsubscribe | orders | status => rfl

theorem isScalar_columns : ∀ c ∈ r.columns, ∀ text ∈ c.2, IsScalar text := by
  cases r with
  | subscribe k => exact k.isScalar_columns
  | unsubscribe id => simp [columns, isScalar_quote]
  | last kindName identifier market source =>
    cases source <;> simp [columns, StreamKey.sourceColumn, isScalar_quote, isScalar_integer]
  | state identifier market =>
    cases identifier <;> cases market <;> simp [columns, isScalar_quote]
  | orders | status => exact List.forall_mem_nil _

/-- The command and the other parts have names of their own. -/
theorem nodup_names : ("cmd" :: r.columns.map Prod.fst).Nodup := by
  cases r <;> simp [columns, StreamKey.columns]

/-- What is written of a request. -/
def parts : List (String × List Char) := ("cmd", quote r.name) :: r.columns.present

theorem write_eq : r.write = record r.parts := by
  rw [write, members_eq, parts]

theorem isScalar_parts : ∀ e ∈ r.parts, IsScalar e.2 := by
  refine List.forall_mem_cons.mpr ⟨isScalar_quote r.name, fun e h => ?_⟩
  exact r.isScalar_columns _ (mem_present.mp h) e.2 rfl

/-- No other part is named like the command. -/
theorem cmd_not_mem : "cmd" ∉ (r.columns.present.map found).map Prod.fst := by
  rw [List.map_map]
  intro mem
  exact (List.nodup_cons.mp r.nodup_names).1 (r.columns.names_present_sublist.subset mem)

/-- The parts of a request are read as its command and the other parts. -/
theorem ofParts?_found : ofParts? (r.parts.map found)
    = ofFields? r.name (fun names => namedFields? names (r.columns.present.map found)) true := by
  have readable : areReadable ((r.parts.map found).map Prod.snd) = true := by
    rw [areReadable, List.all_eq_true]
    intro input h
    obtain ⟨part, mem, rfl⟩ := List.mem_map.mp h
    obtain ⟨e, written, rfl⟩ := List.mem_map.mp mem
    exact (r.isScalar_parts e written).readable _
  -- So the command is given once, and taking it away leaves the other parts.
  have others : ∀ part ∈ r.columns.present.map found, part.1 ≠ "cmd" := fun part mem same =>
    r.cmd_not_mem (same ▸ List.mem_map_of_mem mem)
  have cons : r.parts.map found
      = ("cmd", (quote r.name).map some) :: r.columns.present.map found := rfl
  have once : occurrences "cmd" (r.parts.map found) = 1 := by
    rw [cons, occurrences, List.filter_cons_of_pos (by rfl), List.filter_eq_nil_iff.mpr]
    · rfl
    · simpa using others
  have rest : (r.parts.map found).filter (fun part => part.1 != "cmd")
      = r.columns.present.map found := by
    rw [cons, List.filter_cons_of_neg (by simp), List.filter_eq_self]
    simpa using others
  have command : (r.parts.map found).lookup "cmd" = some ((quote r.name).map some) := by
    rw [cons, lookup_cons_ite, if_pos rfl]
  rw [ofParts?, if_pos ⟨readable, once⟩, rest, command, Option.bind_some, Json.text?, string?_quote,
    Option.bind_some]

/-- The parts of each request are those that its command declares. -/
theorem ofFields?_name : ofFields? r.name
    (fun names => namedFields? names (r.columns.present.map found)) true = some r := by
  -- The columns of a request are the fields that its command declares, in their order.
  have fields := namedFields?_found (List.nodup_cons.mp r.nodup_names).2
  cases r with
  | subscribe k =>
    exact read_then fields <| read_then (required_fields_of_some rfl (string?_quote _)) <|
      read_then (orElse_fields_of_some rfl (string?_quote _)) <|
      read_then (orElse_fields_of_some rfl (string?_quote _)) <|
      read_then (StreamKey.source_fields rfl) <|
      read_then (orElse_fields_of_some rfl (truth?_bool _)) <| rfl
  | unsubscribe id =>
    exact read_then fields <| read_then (required_fields_of_some rfl (string?_quote _)) <| rfl
  | last kindName identifier market source =>
    exact read_then fields <| read_then (required_fields_of_some rfl (string?_quote _)) <|
      read_then (orElse_fields_of_some rfl (string?_quote _)) <|
      read_then (orElse_fields_of_some rfl (string?_quote _)) <|
      read_then (StreamKey.source_fields rfl) <| rfl
  | state identifier market =>
    exact read_then fields <| read_then (optional_fields rfl optional?_quote) <|
      read_then (optional_fields rfl optional?_quote) <| rfl
  | orders => rfl
  | status => rfl

/-- A request is read back from its text. -/
theorem decode?_write : decode? (utf8 r.write) = some r := by
  have values : ∀ e ∈ r.parts, IsValue e.2 := fun e h => (r.isScalar_parts e h).isValue
  rw [decode?, write_eq, document?_utf8 (isValue_record values), Option.bind_some, read?,
    members?_record values]
  exact r.ofParts?_found.trans r.ofFields?_name

end AdminRequest

/-! ## All of them -/

/-- Texts that are read back are those of one value each. -/
theorem injective_of_decode? {α : Type} {write : α → List Char} {decode? : Bytes → Option α}
    (back : ∀ a, decode? (utf8 (write a)) = some a) : Function.Injective write := by
  intro a b same
  have read := back a
  rw [same, back b] at read
  exact (Option.some.inj read).symm

/-- **Requests, keys and settings survive being written.** Any request of any kind, any key and any
settings, whatever texts and numbers they hold and whatever is left out, is read back from its text as
what it was. So no two of one sort have one text. -/
theorem requests_keys_settings_survive :
    (∀ r : AdminRequest, AdminRequest.decode? (utf8 r.write) = some r) ∧
    (∀ k : StreamKey, StreamKey.decode? (utf8 k.write) = some k) ∧
    (∀ s : Settings, Settings.decode? (utf8 s.write) = some s) ∧
    Function.Injective AdminRequest.write ∧ Function.Injective StreamKey.write ∧
    Function.Injective Settings.write :=
  ⟨AdminRequest.decode?_write, StreamKey.decode?_write, Settings.decode?_write,
    injective_of_decode? AdminRequest.decode?_write, injective_of_decode? StreamKey.decode?_write,
    injective_of_decode? Settings.decode?_write⟩

end MarketStream
