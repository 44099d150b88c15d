import MarketStream.Proofs.Json.Members

/-!
# What reading gives

Not every value can come out of a text. The members of an object that was read are in order, and no
such object has the reserved key alone, since an object that does stands for the value of the text
it holds. This is so at every depth, also inside texts that were held.

* `Value.Tidy` — a value as reading gives it;
* `readHolding?_cases` — everything that a value that was read can be;
* `tidy_of_read?`, `tidy_of_readMembers?` — reading gives tidy values.
-/

namespace MarketStream.Json

/-- A value as reading gives it. -/
inductive Value.Tidy : Value → Prop where
  /-- Nothing to put in order. -/
  | null : Tidy .null
  /-- Nothing to put in order. -/
  | bool (b : Bool) : Tidy (.bool b)
  /-- Nothing to put in order. -/
  | integer (n : Integer) : Tidy (.integer n)
  /-- Nothing to put in order. -/
  | float (x : Binary64) : Tidy (.float x)
  /-- Nothing to put in order. -/
  | string (s : String) : Tidy (.string s)
  /-- A list of tidy values. -/
  | array {items : List Value} (tidy : ∀ v ∈ items, Tidy v) : Tidy (.array items)
  /-- Tidy members in order that do not hold a text. -/
  | object {ms : Members} (ascending : ms.Ascending) (notHolding : ∀ v, ms ≠ [(reservedKey, v)])
    (tidy : ∀ m ∈ ms, Tidy m.2) : Tidy (.object ms)

/-! ## Members one after another -/

/-- What reading part by part gives was read from one of the parts. -/
theorem exists_mem_of_mapM {α β : Type} {read : α → Option β} {parts : List α} {values : List β}
    (h : parts.mapM read = some values) : ∀ v ∈ values, ∃ p ∈ parts, read p = some v := by
  induction parts generalizing values with
  | nil =>
    obtain rfl := Option.some.inj h
    intro v hv
    cases hv
  | cons p rest ih =>
    rw [List.mapM_cons] at h
    obtain ⟨first, hp, h⟩ := Option.bind_eq_some_iff.mp h
    obtain ⟨more, hrest, h⟩ := Option.bind_eq_some_iff.mp h
    obtain rfl := Option.some.inj h
    intro v hv
    rcases List.mem_cons.mp hv with rfl | hv
    · exact ⟨p, List.mem_cons_self, hp⟩
    · obtain ⟨q, hq, eq⟩ := ih hrest v hv
      exact ⟨q, List.mem_cons_of_mem _ hq, eq⟩

namespace Members

/-- Setting keys adds nothing else. -/
theorem mem_foldl_insert {m : String × Value} {u : List (String × Value)} {ms : Members}
    (h : m ∈ u.foldl (fun ms (key, value) => ms.insert key value) ms) : m ∈ u ∨ m ∈ ms := by
  induction u generalizing ms with
  | nil => exact .inr h
  | cons head rest ih =>
    rcases ih h with h | h
    · exact .inl (List.mem_cons_of_mem _ h)
    · rcases mem_insert h with rfl | h
      · exact .inl List.mem_cons_self
      · exact .inr h

theorem find?_foldl_insert_ne_none {key : String} {u : List (String × Value)} {ms : Members}
    (h : (∃ v, (key, v) ∈ u) ∨ find? key ms ≠ none) :
    find? key (u.foldl (fun ms (key, value) => ms.insert key value) ms) ≠ none := by
  induction u generalizing ms with
  | nil =>
    rcases h with ⟨v, hv⟩ | h
    · cases hv
    · exact h
  | cons head rest ih =>
    refine ih ?_
    rw [find?_insert]
    rcases h with ⟨v, hv⟩ | h
    · rcases List.mem_cons.mp hv with rfl | hv
      · right
        simp
      · exact .inl ⟨v, hv⟩
    · right
      split
      · simp
      · exact h

/-- Every key that was set is there. -/
theorem find?_ofList_ne_none {key : String} {v : Value} {entries : List (String × Value)}
    (h : (key, v) ∈ entries) : find? key (ofList entries) ≠ none :=
  find?_foldl_insert_ne_none (.inl ⟨v, h⟩)

end Members

/-! ## Values that were read -/

/-- Neither a list nor an object. -/
def Value.IsScalar : Value → Prop
  | .array _ | .object _ => False
  | _ => True

theorem Value.IsScalar.tidy {v : Value} (h : v.IsScalar) : v.Tidy := by
  cases v with
  | null => exact .null
  | bool b => exact .bool b
  | integer n => exact .integer n
  | float x => exact .float x
  | string s => exact .string s
  | array items => exact h.elim
  | object ms => exact h.elim

theorem Numeral.isScalar_of_value? {n : Numeral} {v : Value} (h : n.value? = some v) :
    v.IsScalar := by
  rw [Numeral.value?] at h
  split at h
  · obtain rfl := Option.some.inj h
    trivial
  · obtain ⟨x, -, rfl⟩ := Option.map_eq_some_iff.mp h
    trivial

section

variable {held : Option (String → Option Value)} {room : Nat} {input : Input} {v : Value}

/-- A value that was read is a scalar, a list of what its items are read as, or what the members of
an object stand for. -/
theorem readHolding?_cases (h : readHolding? held room input = some v) :
    v.IsScalar ∨
      (∃ less texts items, room = less + 1 ∧ items? input = some texts ∧
        texts.mapM (readHolding? held less) = some items ∧ v = .array items) ∨
      ∃ less parts, room = less + 1 ∧ members? input = some parts ∧
        objectOf? held (readHolding? held less) parts = some v := by
  rw [readHolding?.eq_def] at h
  split at h
  · split at h
    · cases h
    · next less =>
      obtain ⟨parts, members, h⟩ := Option.bind_eq_some_iff.mp h
      exact .inr (.inr ⟨less, parts, rfl, members, h⟩)
  · split at h
    · cases h
    · next less =>
      obtain ⟨texts, items, h⟩ := Option.bind_eq_some_iff.mp h
      obtain ⟨values, read, rfl⟩ := Option.map_eq_some_iff.mp h
      exact .inr (.inl ⟨less, texts, values, rfl, items, read, rfl⟩)
  · obtain ⟨s, -, rfl⟩ := Option.map_eq_some_iff.mp h
    exact .inl trivial
  · obtain rfl := Option.some.inj h
    exact .inl trivial
  · obtain rfl := Option.some.inj h
    exact .inl trivial
  · obtain rfl := Option.some.inj h
    exact .inl trivial
  · obtain ⟨n, -, h⟩ := Option.bind_eq_some_iff.mp h
    exact .inl (Numeral.isScalar_of_value? h)

end

/-- The values of members were read from their texts. -/
theorem exists_of_mem_valuesOf? {read : Input → Option Value} {parts : List (String × Input)}
    {ms : Members} (h : valuesOf? read parts = some ms) :
    ∀ m ∈ ms, ∃ text, read text = some m.2 := by
  obtain ⟨entries, hentries, rfl⟩ := Option.map_eq_some_iff.mp h
  intro m hm
  rcases Members.mem_foldl_insert hm with hm | hm
  · obtain ⟨p, -, hp⟩ := exists_mem_of_mapM hentries m hm
    obtain ⟨v, hv, rfl⟩ := Option.map_eq_some_iff.mp hp
    exact ⟨p.2, hv⟩
  · cases hm

theorem ascending_of_valuesOf? {read : Input → Option Value} {parts : List (String × Input)}
    {ms : Members} (h : valuesOf? read parts = some ms) : ms.Ascending := by
  obtain ⟨entries, -, rfl⟩ := Option.map_eq_some_iff.mp h
  exact Members.ascending_ofList entries

/-- The first key of a text is a key of the object. -/
theorem find?_of_valuesOf?_cons {read : Input → Option Value} {key : String} {text : Input}
    {rest : List (String × Input)} {ms : Members}
    (h : valuesOf? read ((key, text) :: rest) = some ms) : Members.find? key ms ≠ none := by
  obtain ⟨entries, hentries, rfl⟩ := Option.map_eq_some_iff.mp h
  rw [List.mapM_cons] at hentries
  obtain ⟨first, hfirst, hentries⟩ := Option.bind_eq_some_iff.mp hentries
  obtain ⟨more, -, hentries⟩ := Option.bind_eq_some_iff.mp hentries
  obtain ⟨v, -, rfl⟩ := Option.map_eq_some_iff.mp hfirst
  obtain rfl := Option.some.inj hentries
  exact Members.find?_ofList_ne_none List.mem_cons_self

section

variable {held : String → Option Value} (tidyHeld : ∀ s v, held s = some v → v.Tidy)

include tidyHeld

/-- What an object stands for is tidy if its members and the text that it may hold are. -/
theorem tidy_of_objectOf? {read : Input → Option Value}
    (tidyRead : ∀ text v, read text = some v → v.Tidy) {parts : List (String × Input)} {v : Value}
    (h : objectOf? (some held) read parts = some v) : v.Tidy := by
  have members {ms : Members} (h : valuesOf? read parts = some ms) : ∀ m ∈ ms, m.2.Tidy := by
    intro m hm
    obtain ⟨text, read⟩ := exists_of_mem_valuesOf? h m hm
    exact tidyRead text m.2 read
  cases parts with
  | nil =>
    have h : (valuesOf? read []).map .object = some v := h
    obtain ⟨ms, values, rfl⟩ := Option.map_eq_some_iff.mp h
    obtain rfl := Option.some.inj values
    exact .object .nil (fun v eq => by cases eq) (members values)
  | cons part rest =>
    obtain ⟨key, text⟩ := part
    rw [objectOf?] at h
    split at h
    · split at h
      · obtain ⟨s, -, h⟩ := Option.bind_eq_some_iff.mp h
        exact tidyHeld s v h
      · cases h
    · next notReserved =>
      obtain ⟨ms, values, rfl⟩ := Option.map_eq_some_iff.mp h
      refine .object (ascending_of_valuesOf? values) ?_ (members values)
      rintro v rfl
      have there := find?_of_valuesOf?_cons values
      rw [Members.find?_cons, if_neg notReserved] at there
      exact there rfl

/-- Reading gives tidy values if reading what is held does. -/
theorem tidy_of_readHolding? {room : Nat} {input : Input} {v : Value}
    (h : readHolding? (some held) room input = some v) : v.Tidy := by
  induction room generalizing input v with
  | zero =>
    rcases readHolding?_cases h with scalar | ⟨less, _, _, eq, _⟩ | ⟨less, _, eq, _⟩
    · exact scalar.tidy
    · cases eq
    · cases eq
  | succ less ih =>
    rcases readHolding?_cases h with
      scalar | ⟨_, texts, items, eq, -, read, rfl⟩ | ⟨_, parts, eq, -, h⟩
    · exact scalar.tidy
    · obtain rfl := Nat.succ.inj eq
      refine .array ?_
      intro v hv
      obtain ⟨text, -, read⟩ := exists_mem_of_mapM read v hv
      exact ih read
    · obtain rfl := Nat.succ.inj eq
      exact tidy_of_objectOf? tidyHeld (fun _ _ => ih) h

end

/-- A text that was held gives a tidy value. -/
theorem tidy_of_ofHeld? {layers : Nat} {s : String} {v : Value} (h : ofHeld? layers s = some v) :
    v.Tidy := by
  induction layers generalizing s v with
  | zero => cases h
  | succ layers ih =>
    obtain ⟨input, -, h⟩ := Option.bind_eq_some_iff.mp h
    exact tidy_of_readHolding? (fun _ _ => ih) h

theorem tidy_of_read? {room : Nat} {input : Input} {v : Value} (h : read? room input = some v) :
    v.Tidy :=
  tidy_of_readHolding? (fun _ _ => tidy_of_ofHeld?) h

/-- The members of an object that was read are tidy, whatever their keys. -/
theorem tidy_of_readMembers? {input : Input} {ms : Members} (h : readMembers? input = some ms) :
    ∀ m ∈ ms, m.2.Tidy := by
  obtain ⟨parts, -, values⟩ := Option.bind_eq_some_iff.mp h
  intro m hm
  obtain ⟨text, read⟩ := exists_of_mem_valuesOf? values m hm
  exact tidy_of_read? read

end MarketStream.Json
