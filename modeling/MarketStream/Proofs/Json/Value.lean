import MarketStream.Proofs.Json.Float
import MarketStream.Proofs.Json.Reading
import MarketStream.Proofs.Json.Record

/-!
# Values read back

A tidy value whose measured numbers are read back from their texts is read back as itself, with two
exceptions. Brackets may nest only so deep; and an object that starts with the reserved key is taken
to hold a text, which it does not, since it has other members. Reading can give both: a text that an
object holds is read with all the room there is, and the members of an object are put in order.

* `isValue_of_spelled` — a text that spells a number is a value;
* `Value.isLegible` — a value that can be read back; `Value.floats` — the measured numbers in it;
* `isValue_write` — a written value is a value;
* `readHolding?_write`, `readMembers?_write` — when and how it is read back.
-/

namespace MarketStream.Json

/-! ## Spelled numbers -/

theorem isNumeric_of_natural? {cs : List Char} {n : Nat} (h : Text.natural? cs = some n) :
    ∀ c ∈ cs, isNumeric c = true := by
  intro c hc
  rw [Text.natural?, Option.ite_none_right_eq_some] at h
  exact isNumeric_of_isDigit (List.all_eq_true.mp h.1.2 c hc)

theorem isNumeric_of_integer? {cs : List Char} {n : Int} (h : Text.integer? cs = some n) :
    ∀ c ∈ cs, isNumeric c = true := by
  rw [Text.integer?.eq_def] at h
  split at h
  · obtain ⟨m, hm, -⟩ := Option.map_eq_some_iff.mp h
    exact List.forall_mem_cons.mpr ⟨rfl, isNumeric_of_natural? hm⟩
  · obtain ⟨m, hm, -⟩ := Option.map_eq_some_iff.mp h
    exact List.forall_mem_cons.mpr ⟨rfl, isNumeric_of_natural? hm⟩
  · obtain ⟨m, hm, -⟩ := Option.map_eq_some_iff.mp h
    exact isNumeric_of_natural? hm

theorem isNumeric_of_exponent? {cs : List Char} {e : Option Int}
    (h : Numeral.exponent? cs = some e) : ∀ c ∈ cs, isNumeric c = true := by
  cases cs with
  | nil =>
    intro c hc
    cases hc
  | cons c rest =>
    rw [Numeral.exponent?, Option.ite_none_right_eq_some] at h
    obtain ⟨letter, h⟩ := h
    obtain ⟨n, hn, -⟩ := Option.map_eq_some_iff.mp h
    refine List.forall_mem_cons.mpr ⟨?_, isNumeric_of_integer? hn⟩
    rcases letter with rfl | rfl <;> rfl

theorem isNumeric_of_mem_takeWhile {cs : List Char} :
    ∀ c ∈ cs.takeWhile Char.isDigit, isNumeric c = true := by
  intro c hc
  exact isNumeric_of_isDigit (List.all_eq_true.mp List.all_takeWhile c hc)

/-- What stands before the rest of a number is numeric. -/
theorem isNumeric_of_fraction? {cs digits rest : List Char}
    (h : Numeral.fraction? cs = some (digits, rest)) (numeric : ∀ c ∈ rest, isNumeric c = true) :
    ∀ c ∈ cs, isNumeric c = true := by
  rw [Numeral.fraction?.eq_def] at h
  split at h
  · next after =>
    dsimp only at h
    rw [Option.ite_none_left_eq_some] at h
    obtain ⟨-, rfl⟩ := Prod.mk.inj (Option.some.inj h.2)
    refine List.forall_mem_cons.mpr ⟨rfl, ?_⟩
    rw [← List.takeWhile_append_dropWhile (p := Char.isDigit) (l := after)]
    exact List.forall_mem_append.mpr ⟨isNumeric_of_mem_takeWhile, numeric⟩
  · obtain ⟨-, rfl⟩ := Prod.mk.inj (Option.some.inj h)
    exact numeric

theorem isNumeric_of_unsigned? {negative : Bool} {cs : List Char} {n : Numeral}
    (h : Numeral.unsigned? negative cs = some n) : ∀ c ∈ cs, isNumeric c = true := by
  rw [Numeral.unsigned?, Option.ite_none_left_eq_some] at h
  obtain ⟨-, h⟩ := h
  split at h
  · cases h
  · next fraction =>
    obtain ⟨e, exponent, -⟩ := Option.map_eq_some_iff.mp h
    rw [← List.takeWhile_append_dropWhile (p := Char.isDigit) (l := cs)]
    exact List.forall_mem_append.mpr ⟨isNumeric_of_mem_takeWhile,
      isNumeric_of_fraction? fraction (isNumeric_of_exponent? exponent)⟩

/-- What a spelled number begins with, and what it is made of. -/
theorem spelled_cases {cs : List Char} {n : Numeral} (h : Numeral.parse? cs = some n) :
    ∃ c rest, cs = c :: rest ∧ (c = '-' ∨ c.isDigit = true) ∧
      ∀ d ∈ rest, isNumeric d = true := by
  rw [Numeral.parse?.eq_def] at h
  split at h
  · exact ⟨'-', _, rfl, .inl rfl, isNumeric_of_unsigned? h⟩
  · obtain ⟨c, rest, rfl, digit⟩ := head_of_unsigned? h
    exact ⟨c, rest, rfl, .inr digit, (List.forall_mem_cons.mp (isNumeric_of_unsigned? h)).2⟩

/-- A text that spells a number is a value. -/
theorem isValue_of_spelled {cs : List Char} {n : Numeral} (h : Numeral.parse? cs = some n) :
    IsValue cs := by
  obtain ⟨c, rest, rfl, first, numeric⟩ := spelled_cases h
  exact isValue_of_number first numeric (by rw [h]; rfl)

/-- A text that spells a number is read as that number. -/
theorem readHolding?_of_spelled {cs : List Char} {n : Numeral} (h : Numeral.parse? cs = some n)
    (held : Option (String → Option Value)) (room : Nat) :
    readHolding? held room (cs.map some) = n.value? := by
  obtain ⟨c, rest, rfl, first, -⟩ := spelled_cases h
  have ne : ∀ d : Char, d ≠ '-' → d.isDigit = false → some c ≠ some d := by
    rintro d notMinus notDigit eq
    obtain rfl := Option.some.inj eq
    rcases first with minus | digit
    · exact notMinus minus
    · rw [notDigit] at digit
      cases digit
  rw [List.map_cons, readHolding?.eq_def]
  split
  · next eq => exact absurd (List.cons.inj eq).1 (ne '\x7b' (by decide) rfl)
  · next eq => exact absurd (List.cons.inj eq).1 (ne '[' (by decide) rfl)
  · next eq => exact absurd (List.cons.inj eq).1 (ne '"' (by decide) rfl)
  · next eq => exact absurd (List.cons.inj eq).1 (ne 't' (by decide) rfl)
  · next eq => exact absurd (List.cons.inj eq).1 (ne 'f' (by decide) rfl)
  · next eq => exact absurd (List.cons.inj eq).1 (ne 'n' (by decide) rfl)
  · rw [← List.map_cons, chars?_map_some, Option.bind_some, h, Option.bind_some]

/-! ## What can be read back -/

/-- The first key is the reserved one. -/
def startsReserved (ms : Members) : Bool := ms.head?.any fun m => m.1 == reservedKey

mutual
/-- A value that can be read back where brackets may nest `room` deep. -/
def Value.isLegible (room : Nat) : Value → Bool
  | .array items => decide (0 < room) && itemsLegible (room - 1) items
  | .object ms => decide (0 < room) && !startsReserved ms && membersLegible (room - 1) ms
  | .null | .bool _ | .integer _ | .float _ | .string _ => true

/-- All items can be read back. -/
def itemsLegible (room : Nat) : List Value → Bool
  | [] => true
  | v :: rest => v.isLegible room && itemsLegible room rest

/-- The values of all members can be read back. -/
def membersLegible (room : Nat) : List (String × Value) → Bool
  | [] => true
  | (_, v) :: rest => v.isLegible room && membersLegible room rest
end

theorem itemsLegible_eq_all (room : Nat) (items : List Value) :
    itemsLegible room items = items.all (Value.isLegible room) := by
  induction items with
  | nil => rw [itemsLegible, List.all_nil]
  | cons v rest ih => rw [itemsLegible, ih, List.all_cons]

theorem membersLegible_eq_all (room : Nat) (ms : Members) :
    membersLegible room ms = ms.all fun m => m.2.isLegible room := by
  induction ms with
  | nil => rw [membersLegible, List.all_nil]
  | cons m rest ih => rw [membersLegible, ih, List.all_cons]

mutual
/-- The measured numbers in a value. -/
def Value.floats : Value → List Binary64
  | .float x => [x]
  | .array items => itemsFloats items
  | .object ms => membersFloats ms
  | .null | .bool _ | .integer _ | .string _ => []

/-- The measured numbers in items. -/
def itemsFloats : List Value → List Binary64
  | [] => []
  | v :: rest => v.floats ++ itemsFloats rest

/-- The measured numbers in the values of members. -/
def membersFloats : List (String × Value) → List Binary64
  | [] => []
  | (_, v) :: rest => v.floats ++ membersFloats rest
end

theorem itemsFloats_eq_flatMap (items : List Value) :
    itemsFloats items = items.flatMap Value.floats := by
  induction items with
  | nil => rw [itemsFloats, List.flatMap_nil]
  | cons v rest ih => rw [itemsFloats, ih, List.flatMap_cons]

theorem membersFloats_eq_flatMap (ms : Members) :
    membersFloats ms = ms.flatMap fun m => m.2.floats := by
  induction ms with
  | nil => rw [membersFloats, List.flatMap_nil]
  | cons m rest ih => rw [membersFloats, ih, List.flatMap_cons]

/-! ## Written values -/

theorem writeItems_eq_map (items : List Value) :
    Value.writeItems items = items.map Value.write := by
  induction items with
  | nil => rw [Value.writeItems, List.map_nil]
  | cons v rest ih => rw [Value.writeItems, ih, List.map_cons]

theorem writeMembers_eq_map (ms : Members) :
    Value.writeMembers ms = ms.map fun m => (m.1, m.2.write) := by
  induction ms with
  | nil => rw [Value.writeMembers, List.map_nil]
  | cons m rest ih => rw [Value.writeMembers, ih, List.map_cons]

/-- A written object is a value if the values of its members are. -/
theorem isValue_object {ms : Members} (values : ∀ m ∈ ms, IsValue m.2.write) :
    IsValue (Value.object ms).write := by
  rw [Value.write, writeMembers_eq_map]
  refine isValue_record ?_
  intro e he
  obtain ⟨m, hm, rfl⟩ := List.mem_map.mp he
  exact values m hm

/-- A written value is a value. -/
theorem isValue_write {v : Value} (tidy : v.Tidy) : IsValue v.write := by
  induction tidy with
  | null =>
    rw [Value.write]
    exact isValue_null
  | bool b =>
    rw [Value.write]
    exact isValue_bool b
  | integer n =>
    rw [Value.write]
    exact isValue_integer n.val
  | float x =>
    obtain ⟨n, spelled, -⟩ := parse?_writeFloat x
    rw [Value.write]
    exact isValue_of_spelled spelled
  | string s =>
    rw [Value.write]
    exact isValue_quote s
  | array _ ih =>
    rw [Value.write, writeItems_eq_map]
    refine isValue_list ?_
    intro p hp
    obtain ⟨v, hv, rfl⟩ := List.mem_map.mp hp
    exact ih v hv
  | object _ _ _ ih => exact isValue_object ih

/-! ## Reading back -/

/-- Reading written parts one after another gives what was written if each can be read back. -/
theorem mapM_map_ite {α β γ : Type} {read : β → Option γ} {put : α → β} {give : α → γ}
    {ok : α → Bool} {l : List α}
    (h : ∀ a ∈ l, read (put a) = if ok a then some (give a) else none) :
    (l.map put).mapM read = if l.all ok then some (l.map give) else none := by
  induction l with
  | nil => rfl
  | cons a rest ih =>
    obtain ⟨first, others⟩ := List.forall_mem_cons.mp h
    rw [List.map_cons, List.mapM_cons, first, ih others, List.all_cons]
    cases ok a with
    | false => rfl
    | true => cases rest.all ok <;> rfl

namespace Members

/-- Setting a key after all others. -/
theorem insert_eq_append {key : String} {value : Value} {ms : Members}
    (after : ∀ m ∈ ms, m.1 < key) : insert key value ms = ms ++ [(key, value)] := by
  induction ms with
  | nil => rfl
  | cons m rest ih =>
    obtain ⟨first, others⟩ := List.forall_mem_cons.mp after
    rw [insert, if_neg first.ne', if_neg (not_lt.mpr first.le), ih others]
    rfl

theorem foldl_insert_eq_append {ms u : Members} (h : Ascending (ms ++ u)) :
    u.foldl (fun ms (key, value) => ms.insert key value) ms = ms ++ u := by
  induction u generalizing ms with
  | nil => rw [List.foldl_nil, List.append_nil]
  | cons m rest ih =>
    have before : ∀ a ∈ ms, a.1 < m.1 := by
      intro a ha
      exact (List.pairwise_append.mp h).2.2 a ha m List.mem_cons_self
    have last : insert m.1 m.2 ms = ms ++ [m] := insert_eq_append before
    rw [List.append_cons] at h ⊢
    rw [← ih h, ← last]
    rfl

/-- Members in order are what setting them one after another gives. -/
theorem ofList_eq_self {ms : Members} (h : ms.Ascending) : ofList ms = ms :=
  @foldl_insert_eq_append [] ms h

end Members

/-- The values of written members, read by their texts. -/
theorem valuesOf?_write {read : Input → Option Value} {ok : Value → Bool} {ms : Members}
    (ascending : ms.Ascending)
    (h : ∀ m ∈ ms, read (m.2.write.map some) = if ok m.2 then some m.2 else none) :
    valuesOf? read (ms.map fun m => (m.1, m.2.write.map some))
      = if ms.all fun m => ok m.2 then some ms else none := by
  have entries : (ms.map fun m => (m.1, m.2.write.map some)).mapM
      (fun part => (read part.2).map fun v => (part.1, v))
        = if ms.all fun m => ok m.2 then some (ms.map id) else none := by
    refine mapM_map_ite ?_
    intro m hm
    rw [h m hm]
    cases ok m.2 <;> rfl
  rw [valuesOf?, entries, List.map_id]
  split
  · rw [Option.map_some, Members.ofList_eq_self ascending]
  · rfl

/-- What a written object stands for, by the texts of its members: itself, unless it starts with the
reserved key. -/
theorem objectOf?_write {held : String → Option Value} {read : Input → Option Value}
    {ok : Value → Bool} {ms : Members} (ascending : ms.Ascending)
    (notHolding : ∀ v, ms ≠ [(reservedKey, v)])
    (h : ∀ m ∈ ms, read (m.2.write.map some) = if ok m.2 then some m.2 else none) :
    objectOf? (some held) read (ms.map fun m => (m.1, m.2.write.map some))
      = if !startsReserved ms && ms.all fun m => ok m.2 then some (.object ms) else none := by
  have values := valuesOf?_write ascending h
  cases ms with
  | nil => rfl
  | cons m rest =>
    have starts : startsReserved (m :: rest) = (m.1 == reservedKey) := rfl
    rw [List.map_cons] at values ⊢
    rw [objectOf?, starts]
    by_cases reserved : m.1 = reservedKey
    · have more : rest ≠ [] := by
        rintro rfl
        exact notHolding m.2 (by rw [← reserved])
      rw [if_pos reserved, if_neg (by simpa using more), beq_iff_eq.mpr reserved]
      rfl
    · rw [if_neg reserved, values, beq_eq_false_iff_ne.mpr reserved, Bool.not_false, Bool.true_and]
      split <;> rfl

/-- The members of a written object with the texts of their values. -/
theorem members?_write {ms : Members} (values : ∀ m ∈ ms, IsValue m.2.write) :
    members? ((Value.object ms).write.map some)
      = some (ms.map fun m => (m.1, m.2.write.map some)) := by
  rw [Value.write, writeMembers_eq_map, members?_record, List.map_map]
  · rfl
  · intro e he
    obtain ⟨m, hm, rfl⟩ := List.mem_map.mp he
    exact values m hm

/-- **Values are read back.** A tidy value whose measured numbers are read back is read back as itself
if it is legible, and not at all otherwise. -/
theorem readHolding?_write {v : Value} (tidy : v.Tidy) (floats : ∀ x ∈ v.floats, ReadsBack x)
    (held : String → Option Value) (room : Nat) :
    readHolding? (some held) room (v.write.map some)
      = if v.isLegible room then some v else none := by
  induction tidy generalizing room with
  | null =>
    rw [Value.write, Value.isLegible, readHolding?.eq_def]
    rfl
  | bool b =>
    rw [Value.write, Value.isLegible, readHolding?.eq_def]
    cases b <;> rfl
  | integer n =>
    rw [Value.write, Value.isLegible, writeInteger, readHolding?_of_spelled (parse?_integer n.val),
      Numeral.value?, integer?_written, Integer.ofInt?, dif_pos ⟨n.lower, n.upper⟩]
    rfl
  | float x =>
    rw [Value.floats] at floats
    obtain ⟨n, spelled, -, value⟩ := (floats x (List.mem_singleton_self x)).exists_numeral
    rw [Value.write, Value.isLegible, readHolding?_of_spelled spelled, value]
    rfl
  | string s =>
    have read : string? ((quote s).map some) = some s := string?_quote s
    rw [Value.write, Value.isLegible, readHolding?.eq_def]
    show (string? ((quote s).map some)).map Value.string = _
    rw [read]
    rfl
  | @array items tidy ih =>
    have values : ∀ p ∈ items.map Value.write, IsValue p := by
      intro p hp
      obtain ⟨v, hv, rfl⟩ := List.mem_map.mp hp
      exact isValue_write (tidy v hv)
    rw [Value.floats, itemsFloats_eq_flatMap, List.forall_mem_flatMap] at floats
    rw [Value.write, Value.isLegible, writeItems_eq_map, itemsLegible_eq_all, readHolding?.eq_def]
    cases room with
    | zero => rfl
    | succ less =>
      have read : (items.map fun v => v.write.map some).mapM (readHolding? (some held) less)
          = if items.all (Value.isLegible less) then some (items.map id) else none := by
        refine mapM_map_ite ?_
        intro v hv
        exact ih v hv (floats v hv) less
      show (items? ((list (items.map Value.write)).map some)).bind _ = _
      rw [items?_list values, List.map_map, Option.bind_some]
      show Option.map Value.array ((items.map fun v : Value => v.write.map some).mapM _) = _
      rw [read, List.map_id, decide_eq_true (Nat.succ_pos less), Bool.true_and,
        Nat.add_sub_cancel]
      split <;> rfl
  | @object ms ascending notHolding tidy ih =>
    have values : ∀ m ∈ ms, IsValue m.2.write := by
      intro m hm
      exact isValue_write (tidy m hm)
    have parts := members?_write values
    rw [Value.floats, membersFloats_eq_flatMap, List.forall_mem_flatMap] at floats
    rw [Value.write] at parts ⊢
    rw [Value.isLegible, membersLegible_eq_all, readHolding?.eq_def]
    cases room with
    | zero => rfl
    | succ less =>
      show (members? ((record (Value.writeMembers ms)).map some)).bind _ = _
      rw [parts, Option.bind_some, objectOf?_write ascending notHolding
        fun m hm => ih m hm (floats m hm) less]
      rw [decide_eq_true (Nat.succ_pos less), Bool.true_and, Nat.add_sub_cancel]

/-- The members of an object are read back if the value of each of them is legible. That the object
itself starts with the reserved key does not matter. -/
theorem readMembers?_write {ms : Members} (ascending : ms.Ascending)
    (tidy : ∀ m ∈ ms, m.2.Tidy) (floats : ∀ x ∈ membersFloats ms, ReadsBack x) :
    readMembers? ((Value.object ms).write.map some)
      = if membersLegible roomyField ms then some ms else none := by
  have values : ∀ m ∈ ms, IsValue m.2.write := by
    intro m hm
    exact isValue_write (tidy m hm)
  rw [readMembers?, members?_write values, Option.bind_some, membersLegible_eq_all]
  rw [membersFloats_eq_flatMap, List.forall_mem_flatMap] at floats
  refine valuesOf?_write ascending ?_
  intro m hm
  exact readHolding?_write (tidy m hm) (floats m hm) _ roomyField

end MarketStream.Json
