import MarketStream.Proofs.Json.Value

/-!
# How deep values nest

Which values are read back as themselves can be told from two things, apart from the measured numbers
in them: how deep their brackets nest, and that no object inside, itself included, starts with the
reserved key.

* `Value.depth` — how deep the brackets of a value nest;
* `Value.Plain` — every object inside has its members in order and an ordinary first key;
* `plain_and_depth_le_iff` — such a value, with room for its brackets, is tidy and legible;
* `Value.Simple`, `simple_ofList` — objects put together from such values without measured numbers.
-/

namespace MarketStream.Json

mutual
/-- How deep the brackets of a value nest. -/
def Value.depth : Value → Nat
  | .array items => itemsDepth items + 1
  | .object ms => membersDepth ms + 1
  | .null | .bool _ | .integer _ | .float _ | .string _ => 0

/-- How deep the brackets of items nest. -/
def itemsDepth : List Value → Nat
  | [] => 0
  | v :: rest => max v.depth (itemsDepth rest)

/-- How deep the brackets of the values of members nest. -/
def membersDepth : List (String × Value) → Nat
  | [] => 0
  | (_, v) :: rest => max v.depth (membersDepth rest)
end

theorem itemsDepth_le_iff {room : Nat} {items : List Value} :
    itemsDepth items ≤ room ↔ ∀ v ∈ items, v.depth ≤ room := by
  induction items with
  | nil => simp [itemsDepth]
  | cons v rest ih => rw [itemsDepth, Nat.max_le, ih, List.forall_mem_cons]

theorem membersDepth_le_iff {room : Nat} {ms : Members} :
    membersDepth ms ≤ room ↔ ∀ m ∈ ms, m.2.depth ≤ room := by
  induction ms with
  | nil => simp [membersDepth]
  | cons m rest ih => rw [membersDepth, Nat.max_le, ih, List.forall_mem_cons]

/-- A value whose objects have their members in order and start with ordinary keys. -/
inductive Value.Plain : Value → Prop where
  /-- No object. -/
  | null : Plain .null
  /-- No object. -/
  | bool (b : Bool) : Plain (.bool b)
  /-- No object. -/
  | integer (n : Integer) : Plain (.integer n)
  /-- No object. -/
  | float (x : Binary64) : Plain (.float x)
  /-- No object. -/
  | string (s : String) : Plain (.string s)
  /-- A list of plain values. -/
  | array {items : List Value} (plain : ∀ v ∈ items, Plain v) : Plain (.array items)
  /-- Plain members in order, of which the first does not have the reserved key. -/
  | object {ms : Members} (ascending : ms.Ascending) (ordinary : startsReserved ms = false)
    (plain : ∀ m ∈ ms, Plain m.2) : Plain (.object ms)

theorem Value.Plain.tidy {v : Value} (h : v.Plain) : v.Tidy := by
  induction h with
  | null => exact .null
  | bool b => exact .bool b
  | integer n => exact .integer n
  | float x => exact .float x
  | string s => exact .string s
  | array _ ih => exact .array ih
  | object ascending ordinary _ ih =>
    refine .object ascending ?_ ih
    rintro v rfl
    rw [startsReserved, List.head?_cons, Option.any_some, beq_self_eq_true] at ordinary
    cases ordinary

/-- With room for its brackets a plain value is legible. -/
theorem Value.Plain.isLegible {v : Value} (h : v.Plain) {room : Nat} (deep : v.depth ≤ room) :
    v.isLegible room = true := by
  induction h generalizing room with
  | null | bool _ | integer _ | float _ | string _ => rw [Value.isLegible]
  | array _ ih =>
    rw [Value.depth] at deep
    have items := itemsDepth_le_iff.mp (Nat.le_sub_one_of_lt deep)
    rw [Value.isLegible, itemsLegible_eq_all, Bool.and_eq_true, List.all_eq_true]
    exact ⟨decide_eq_true (Nat.zero_lt_of_lt deep), fun v hv => ih v hv (items v hv)⟩
  | object _ ordinary _ ih =>
    rw [Value.depth] at deep
    have values := membersDepth_le_iff.mp (Nat.le_sub_one_of_lt deep)
    rw [Value.isLegible, membersLegible_eq_all, ordinary, Bool.not_false, Bool.and_true,
      Bool.and_eq_true, List.all_eq_true]
    exact ⟨decide_eq_true (Nat.zero_lt_of_lt deep), fun m hm => ih m hm (values m hm)⟩

/-- A tidy value that is legible is plain, and there is room for its brackets. -/
theorem Value.Tidy.plain_and_depth_le {v : Value} (h : v.Tidy) {room : Nat}
    (legible : v.isLegible room = true) : v.Plain ∧ v.depth ≤ room := by
  induction h generalizing room with
  | null => exact ⟨.null, Nat.zero_le _⟩
  | bool b => exact ⟨.bool b, Nat.zero_le _⟩
  | integer n => exact ⟨.integer n, Nat.zero_le _⟩
  | float x => exact ⟨.float x, Nat.zero_le _⟩
  | string s => exact ⟨.string s, Nat.zero_le _⟩
  | array _ ih =>
    rw [Value.isLegible, itemsLegible_eq_all, Bool.and_eq_true, List.all_eq_true,
      decide_eq_true_iff] at legible
    obtain ⟨pos, items⟩ := legible
    refine ⟨.array fun v hv => (ih v hv (items v hv)).1, ?_⟩
    rw [Value.depth]
    exact Nat.add_le_of_le_sub pos (itemsDepth_le_iff.mpr fun v hv => (ih v hv (items v hv)).2)
  | object ascending _ _ ih =>
    rw [Value.isLegible, membersLegible_eq_all, Bool.and_eq_true, Bool.and_eq_true,
      List.all_eq_true, decide_eq_true_iff, Bool.not_eq_true'] at legible
    obtain ⟨⟨pos, ordinary⟩, values⟩ := legible
    refine ⟨.object ascending ordinary fun m hm => (ih m hm (values m hm)).1, ?_⟩
    rw [Value.depth]
    exact Nat.add_le_of_le_sub pos
      (membersDepth_le_iff.mpr fun m hm => (ih m hm (values m hm)).2)

/-- The values that are read back as themselves where brackets may nest `room` deep. -/
theorem plain_and_depth_le_iff {v : Value} {room : Nat} :
    v.Plain ∧ v.depth ≤ room ↔ v.Tidy ∧ v.isLegible room = true :=
  ⟨fun h => ⟨h.1.tidy, h.1.isLegible h.2⟩, fun h => h.1.plain_and_depth_le h.2⟩

/-! ## Objects that are put together -/

theorem mem_of_mem_ofList {m : String × Value} {entries : List (String × Value)}
    (h : m ∈ Members.ofList entries) : m ∈ entries := by
  rcases Members.mem_foldl_insert h with h | h
  · exact h
  · cases h

/-- A plain value without measured numbers that nests at most `room` deep. -/
structure Value.Simple (room : Nat) (v : Value) : Prop where
  /-- It is plain. -/
  plain : v.Plain
  /-- It does not nest deeper. -/
  depth_le : v.depth ≤ room
  /-- Nothing in it is measured. -/
  floats : v.floats = []

/-- A member under an ordinary key, with a simple value. -/
structure Fits (room : Nat) (m : String × Value) : Prop where
  /-- The key is not reserved. -/
  ordinary : m.1 ≠ reservedKey
  /-- The value is simple. -/
  simple : m.2.Simple room

/-- An object put together from such members is simple and nests one deeper. -/
theorem simple_ofList {entries : List (String × Value)} {room : Nat}
    (h : ∀ e ∈ entries, Fits room e) : (Value.ofList entries).Simple (room + 1) := by
  have all : ∀ m ∈ Members.ofList entries, Fits room m := fun m hm => h m (mem_of_mem_ofList hm)
  have ordinary : startsReserved (Members.ofList entries) = false := by
    rw [startsReserved]
    cases first : (Members.ofList entries).head? with
    | none => rfl
    | some m =>
      rw [Option.any_some, beq_eq_false_iff_ne]
      exact (all m (List.mem_of_head? first)).ordinary
  refine ⟨.object (Members.ascending_ofList entries) ordinary fun m hm => (all m hm).simple.plain,
    ?_, ?_⟩
  · rw [Value.ofList, Value.depth]
    exact Nat.succ_le_succ (membersDepth_le_iff.mpr fun m hm => (all m hm).simple.depth_le)
  · rw [Value.ofList, Value.floats, membersFloats_eq_flatMap, List.flatMap_eq_nil_iff]
    exact fun m hm => (all m hm).simple.floats

end MarketStream.Json
