import MarketStream.Proofs.Json.Number
import MarketStream.Proofs.Lookup

/-!
# Reading records back

The parts of a written list or record are found again where they were put, so the declared fields
of a written record are those that were written under their names.

* `items?_list`, `members?_record` — the parts of brackets;
* `decodeFields?_record` — the declared fields of a written record;
* `namedFields?_eq_some_iff`, `field?_namedFields?` — those of any named parts.
-/

namespace MarketStream.Json

/-- A written part as it is found again. -/
def found (e : String × List Char) : String × Input := (e.1, e.2.map some)

theorem dropSpace_mark {c : Char} (h : isSpace c = false) (rest : Input) :
    dropSpace (some c :: rest) = some c :: rest :=
  List.dropWhile_cons_of_neg (by simp [isSpaceGlyph, h])

theorem map_commas (part next : List Char) (more : List (List Char)) (rest : Input) :
    (commas (part :: next :: more)).map some ++ rest
      = part.map some ++ some ',' :: ((commas (next :: more)).map some ++ rest) := by
  rw [commas_cons_cons]
  simp

/-! ## Lists -/

theorem itemsFrom_comma {input item rest : Input} (seen : List Input) (fuel : Nat)
    (h : extent? input = some (item, some ',' :: rest)) :
    itemsFrom seen (fuel + 1) input = itemsFrom (item :: seen) fuel rest := by
  rw [itemsFrom, h]
  dsimp only
  rw [dropSpace_mark (by decide)]
  rfl

theorem itemsFrom_end {input item rest : Input} (seen : List Input) (fuel : Nat)
    (h : extent? input = some (item, some ']' :: rest)) :
    itemsFrom seen (fuel + 1) input = some (item :: seen).reverse := by
  rw [itemsFrom, h]
  dsimp only
  rw [dropSpace_mark (by decide)]
  rfl

theorem itemsFrom_commas {parts : List (List Char)} (values : ∀ p ∈ parts, IsValue p)
    (nonempty : parts ≠ []) (seen : List Input) {fuel : Nat} (enough : parts.length ≤ fuel)
    (rest : Input) :
    itemsFrom seen fuel ((commas parts).map some ++ some ']' :: rest)
      = some (seen.reverse ++ parts.map (List.map some)) := by
  induction parts generalizing seen fuel with
  | nil => exact absurd rfl nonempty
  | cons part more ih =>
    have value := values part (by simp)
    obtain ⟨fuel, rfl⟩ := Nat.exists_eq_succ_of_ne_zero (Nat.ne_zero_of_lt enough)
    cases more with
    | nil =>
      rw [commas, itemsFrom_end seen fuel (value.extent?_eq (delimited_cons (by decide) rest))]
      simp
    | cons next more =>
      have later := ih (fun p hp => values p (List.mem_cons_of_mem _ hp)) (by simp)
        (part.map some :: seen) (Nat.le_of_succ_le_succ enough)
      rw [map_commas, itemsFrom_comma seen fuel (value.extent?_eq (delimited_cons (by decide) _)),
        later]
      simp

theorem length_le_commas (parts : List (List Char)) (nonempty : ∀ p ∈ parts, p ≠ []) :
    parts.length ≤ (commas parts).length := by
  induction parts with
  | nil => exact Nat.le_refl _
  | cons part more ih =>
    have pos := List.length_pos_iff.mpr (nonempty part (by simp))
    cases more with
    | nil => exact pos
    | cons next more =>
      have := ih fun p hp => nonempty p (List.mem_cons_of_mem _ hp)
      rw [commas_cons_cons]
      simp only [List.length_cons, List.length_append] at this ⊢
      omega

theorem IsValue.ne_nil {text : List Char} (h : IsValue text) : text ≠ [] := by
  obtain ⟨c, rest, rfl, -⟩ := h.head_ne
  exact List.cons_ne_nil c rest

/-- Written parts begin as the first of them does. -/
theorem head_commas (c : Char) (rest : List Char) (more : List (List Char)) :
    ∃ tail, commas ((c :: rest) :: more) = c :: tail := by
  cases more with
  | nil => exact ⟨rest, rfl⟩
  | cons next more => exact ⟨_, commas_cons_cons ..⟩

/-- The items of a written list. -/
theorem items?_list {parts : List (List Char)} (values : ∀ p ∈ parts, IsValue p) :
    items? ((list parts).map some) = some (parts.map (List.map some)) := by
  rw [list, List.map_cons, items?, List.map_append]
  cases parts with
  | nil => rfl
  | cons part more =>
    obtain ⟨c, rest, rfl, notSpace, notEnd⟩ := (values part (by simp)).head_ne
    obtain ⟨tail, eq⟩ := head_commas c rest more
    have enough : ((c :: rest) :: more).length
        ≤ ((commas ((c :: rest) :: more)).map some ++ [']'].map some).length := by
      have := length_le_commas _ fun p hp => (values p hp).ne_nil
      simp only [List.length_append, List.length_map]
      omega
    -- The first character is not the bracket of an empty list.
    have items := itemsFrom_commas values (by simp) [] enough []
    rw [eq] at items ⊢
    rw [List.map_cons, List.cons_append, dropSpace_mark notSpace]
    split
    · next same =>
      injection same with same
      exact absurd (Option.some.inj same) notEnd
    · exact items

/-! ## Records -/

section

variable {input text value rest rest' : Input} {name : String}

theorem membersFrom_comma (seen : List (String × Input)) (fuel : Nat)
    (hkey : extent? input = some (text, some ':' :: rest)) (hname : string? text = some name)
    (hvalue : extent? rest = some (value, some ',' :: rest')) :
    membersFrom seen (fuel + 1) input = membersFrom ((name, value) :: seen) fuel rest' := by
  simp only [membersFrom, hkey, hname, dropSpace_mark (c := ':') rfl, hvalue,
    dropSpace_mark (c := ',') rfl]

theorem membersFrom_end (seen : List (String × Input)) (fuel : Nat)
    (hkey : extent? input = some (text, some ':' :: rest)) (hname : string? text = some name)
    (hvalue : extent? rest = some (value, some '\x7d' :: rest')) :
    membersFrom seen (fuel + 1) input = some ((name, value) :: seen).reverse := by
  simp only [membersFrom, hkey, hname, dropSpace_mark (c := ':') rfl, hvalue,
    dropSpace_mark (c := '\x7d') rfl]

end

theorem map_member (e : String × List Char) (rest : Input) :
    (member e).map some ++ rest = (quote e.1).map some ++ some ':' :: (e.2.map some ++ rest) := by
  simp [member]

theorem membersFrom_commas {entries : List (String × List Char)}
    (values : ∀ e ∈ entries, IsValue e.2) (nonempty : entries ≠ []) (seen : List (String × Input))
    {fuel : Nat} (enough : entries.length ≤ fuel) (rest : Input) :
    membersFrom seen fuel ((commas (entries.map member)).map some ++ some '\x7d' :: rest)
      = some (seen.reverse ++ entries.map found) := by
  induction entries generalizing seen fuel with
  | nil => exact absurd rfl nonempty
  | cons e more ih =>
    have value := values e (by simp)
    have key := fun tail =>
      (isValue_quote e.1).extent?_eq (delimited_cons (c := ':') (by decide) tail)
    obtain ⟨fuel, rfl⟩ := Nat.exists_eq_succ_of_ne_zero (Nat.ne_zero_of_lt enough)
    cases more with
    | nil =>
      rw [List.map_singleton, commas, map_member, membersFrom_end seen fuel (key _)
        (string?_quote e.1) (value.extent?_eq (delimited_cons (by decide) rest))]
      simp [found]
    | cons next more =>
      have later := ih (fun p hp => values p (List.mem_cons_of_mem _ hp)) (by simp)
        (found e :: seen) (Nat.le_of_succ_le_succ enough)
      rw [List.map_cons, List.map_cons, map_commas, map_member,
        membersFrom_comma seen fuel (key _) (string?_quote e.1)
          (value.extent?_eq (delimited_cons (by decide) _))]
      exact later.trans (by simp [found])

/-- The members of a written record. -/
theorem members?_record {entries : List (String × List Char)}
    (values : ∀ e ∈ entries, IsValue e.2) :
    members? ((record entries).map some) = some (entries.map found) := by
  rw [record, List.map_cons, members?, List.map_append]
  cases entries with
  | nil => rfl
  | cons e more =>
    obtain ⟨tail, eq⟩ : ∃ tail, commas ((e :: more).map member) = '"' :: tail :=
      head_commas '"' _ (more.map member)
    have enough : (e :: more).length
        ≤ ((commas ((e :: more).map member)).map some ++ ['\x7d'].map some).length := by
      have := length_le_commas ((e :: more).map member) fun p hp => by
        obtain ⟨e, -, rfl⟩ := List.mem_map.mp hp
        exact List.cons_ne_nil _ _
      rw [List.length_map] at this
      simp only [List.length_append, List.length_map]
      omega
    have members := membersFrom_commas values (by simp) [] enough []
    rw [eq] at members ⊢
    exact members

/-! ## Declared fields -/

/-- The declared fields among written parts. -/
def given (names : List String) (entries : List (String × List Char)) : Fields :=
  ⟨names.map fun name => (name, (entries.map found).lookup name)⟩

theorem occurrences_le_one {parts : List (String × Input)} (once : (parts.map Prod.fst).Nodup)
    (name : String) : occurrences name parts ≤ 1 := by
  induction parts with
  | nil => exact Nat.zero_le _
  | cons part rest ih =>
    obtain ⟨new, rest_once⟩ := List.nodup_cons.mp once
    rw [occurrences, List.filter_cons]
    split
    · next same =>
      obtain rfl := beq_iff_eq.mp same
      have none_left : rest.filter (fun p => p.1 == part.1) = [] := by
        rw [List.filter_eq_nil_iff]
        intro p hp eq
        exact new (beq_iff_eq.mp eq ▸ List.mem_map_of_mem hp)
      rw [none_left]
      exact Nat.le_refl _
    · exact ih rest_once

/-- The declared fields among written parts with names of their own. -/
theorem namedFields?_found {entries : List (String × List Char)} (names : List String)
    (once : (entries.map Prod.fst).Nodup) :
    namedFields? names (entries.map found) = some (given names entries) := by
  have once' : ((entries.map found).map Prod.fst).Nodup := by
    rw [List.map_map]
    exact once
  rw [namedFields?, if_pos]
  · rfl
  · rw [List.all_eq_true]
    exact fun name _ => decide_eq_true (occurrences_le_one once' name)

/-- The declared fields of a written record are those written under their names. -/
theorem fields?_record {entries : List (String × List Char)} (names : List String)
    (values : ∀ e ∈ entries, IsValue e.2) (once : (entries.map Prod.fst).Nodup) :
    fields? names ((record entries).map some) = some (given names entries) := by
  rw [fields?, members?_record values]
  exact namedFields?_found names once

/-- The declared fields of the bytes of a written record. -/
theorem decodeFields?_record {entries : List (String × List Char)} (names : List String)
    (values : ∀ e ∈ entries, IsValue e.2) (once : (entries.map Prod.fst).Nodup) :
    decodeFields? names (utf8 (record entries)) = some (given names entries) := by
  rw [decodeFields?, document?_utf8 (isValue_record values), Option.bind_some,
    fields?_record names values once]

/-- Named parts have declared fields if none of these is given twice. -/
theorem namedFields?_eq_some_iff {names : List String} {parts : List (String × Input)}
    {r : Fields} : namedFields? names parts = some r ↔
      (∀ name ∈ names, occurrences name parts ≤ 1) ∧
        ⟨names.map fun name => (name, parts.lookup name)⟩ = r := by
  rw [namedFields?, Option.ite_none_right_eq_some, List.all_eq_true, Option.some_inj]
  simp only [decide_eq_true_eq]

/-- A declared field of named parts is what stands under its name. -/
theorem field?_namedFields? {names : List String} {parts : List (String × Input)} {r : Fields}
    {name : String} (h : namedFields? names parts = some r) (declared : name ∈ names) :
    r.field? name = parts.lookup name := by
  obtain ⟨-, rfl⟩ := namedFields?_eq_some_iff.mp h
  rw [Fields.field?, lookup_mapsTo _ declared]
  rfl

theorem lookup_found (name : String) (entries : List (String × List Char)) :
    (entries.map found).lookup name = (entries.lookup name).map (List.map some) :=
  lookup_map_value (fun _ => List.map some) name entries

/-- A declared field is what was written under its name, if anything was. -/
theorem field?_given {names : List String} {name : String} (declared : name ∈ names)
    (entries : List (String × List Char)) :
    (given names entries).field? name = (entries.lookup name).map (List.map some) := by
  rw [Fields.field?, given, lookup_mapsTo _ declared, lookup_found]
  rfl

section

variable {α : Type} {names : List String} {n : String} {entries : List (String × List Char)}
  {read : Input → Option α} {text : List Char}

theorem required_given (declared : n ∈ names) (h : entries.lookup n = some text) :
    (given names entries).required n read = read (text.map some) := by
  rw [Fields.required, field?_given declared, h]
  rfl

theorem required_given_of_none (declared : n ∈ names) (h : entries.lookup n = none) :
    (given names entries).required n read = none := by
  rw [Fields.required, field?_given declared, h]
  rfl

theorem orElse_given (declared : n ∈ names) (h : entries.lookup n = some text) (a : α) :
    (given names entries).orElse n a read = read (text.map some) := by
  rw [Fields.orElse, field?_given declared, h]
  rfl

theorem orElse_given_of_none (declared : n ∈ names) (h : entries.lookup n = none) (a : α) :
    (given names entries).orElse n a read = some a := by
  rw [Fields.orElse, field?_given declared, h]
  rfl

end

end MarketStream.Json
