import Mathlib.Data.List.Nodup

/-!
# Looking up in lists of pairs

Tables are lists of keys with values, and the first entry of a key counts.

* `lookup_cons_ite`, `lookup_filter_key_ne`, `lookup_map_value` — looking up after a change of
  the table;
* `lookup_mapsTo` — a table made from its keys;
* `lookup_eq_head?_filter` — the first of the entries that have the key;
* `lookup_eq_none_of_not_mem`, `isSome_lookup_iff` — a key that no entry has, or some entry;
* `lookup_eq_some_of_mem` — the entries of a table in which each key stands once;
* `nodup_map_concat` — one more entry with a key of its own.
-/

namespace MarketStream

/-- One more entry leaves the keys distinct if its own is new. -/
theorem nodup_map_concat {α β : Type} {f : α → β} {xs : List α} {x : α}
    (h : (xs.map f).Nodup) (new : f x ∉ xs.map f) : ((xs ++ [x]).map f).Nodup := by
  rw [List.map_append]
  exact List.concat_eq_append ▸ h.concat new

variable {κ α β : Type} [BEq κ] [LawfulBEq κ]

theorem mem_of_lookup {key : κ} {a : α} {table : List (κ × α)} (h : table.lookup key = some a) :
    (key, a) ∈ table := by
  obtain ⟨before, rest, rfl, -⟩ := List.lookup_eq_some_iff.mp h
  exact List.mem_append_right _ List.mem_cons_self

/-- A key that no entry has is not found. -/
theorem lookup_eq_none_of_not_mem {key : κ} {table : List (κ × α)}
    (h : key ∉ table.map Prod.fst) : table.lookup key = none := by
  rw [List.lookup_eq_none_iff]
  intro e he
  rw [bne_iff_ne]
  exact fun eq => h (eq ▸ List.mem_map_of_mem he)

/-- A key is found if some entry has it. -/
theorem isSome_lookup_iff {key : κ} {table : List (κ × α)} :
    (table.lookup key).isSome ↔ key ∈ table.map Prod.fst := by
  constructor
  · intro found
    obtain ⟨a, eq⟩ := Option.isSome_iff_exists.mp found
    exact List.mem_map.mpr ⟨(key, a), mem_of_lookup eq, rfl⟩
  · intro mem
    rw [Option.isSome_iff_ne_none]
    intro absent
    obtain ⟨e, he, rfl⟩ := List.mem_map.mp mem
    have differs := List.lookup_eq_none_iff.mp absent e he
    exact bne_iff_ne.mp differs rfl

variable [DecidableEq κ]

theorem lookup_cons_ite (key k : κ) (a : α) (rest : List (κ × α)) :
    ((k, a) :: rest).lookup key = if key = k then some a else rest.lookup key := by
  rw [List.lookup_cons]
  by_cases h : key = k
  · rw [if_pos h, beq_iff_eq.mpr h]
  · rw [if_neg h, beq_eq_false_iff_ne.mpr h]

/-- Looking up after dropping the entries of a key. -/
theorem lookup_filter_key_ne (key k : κ) (table : List (κ × α)) :
    (table.filter fun e => e.1 != k).lookup key = if key = k then none else table.lookup key := by
  induction table with
  | nil => exact (ite_self none).symm
  | cons e rest ih =>
    obtain ⟨n, a⟩ := e
    rw [List.filter_cons, lookup_cons_ite]
    by_cases drop : n = k
    · rw [if_neg (by simp [drop]), ih]
      by_cases h : key = k
      · rw [if_pos h, if_pos h]
      · rw [if_neg h, if_neg h, if_neg fun eq => h (eq.trans drop)]
    · rw [if_pos (by simp [drop]), lookup_cons_ite, ih]
      by_cases h : key = n
      · rw [if_pos h, if_pos h, if_neg fun eq => drop (h.symm.trans eq)]
      · rw [if_neg h, if_neg h]

/-- Looking up after a change of the values. -/
theorem lookup_map_value (f : κ → α → β) (key : κ) (table : List (κ × α)) :
    (table.map fun e => (e.1, f e.1 e.2)).lookup key = (table.lookup key).map (f key) := by
  induction table with
  | nil => rfl
  | cons e rest ih =>
    obtain ⟨k, a⟩ := e
    rw [List.map_cons, lookup_cons_ite, lookup_cons_ite, ih]
    by_cases h : key = k
    · rw [if_pos h, if_pos h, h]
      rfl
    · rw [if_neg h, if_neg h]

/-- Looking up in a table made from its keys. -/
theorem lookup_mapsTo (f : κ → α) {key : κ} {keys : List κ} (h : key ∈ keys) :
    (keys.map fun k => (k, f k)).lookup key = some (f key) := by
  induction keys with
  | nil => cases h
  | cons k rest ih =>
    rw [List.map_cons, lookup_cons_ite]
    by_cases same : key = k
    · rw [if_pos same, same]
    · rw [if_neg same, ih ((List.mem_cons.mp h).resolve_left same)]

/-- Looking up finds the first entry of those that have the key. -/
theorem lookup_eq_head?_filter (key : κ) (table : List (κ × α)) :
    table.lookup key = ((table.filter fun e => e.1 == key).head?).map Prod.snd := by
  induction table with
  | nil => rfl
  | cons e rest ih =>
    obtain ⟨k, a⟩ := e
    rw [lookup_cons_ite, List.filter_cons]
    by_cases same : key = k
    · rw [if_pos same, if_pos (beq_iff_eq.mpr same.symm)]
      rfl
    · rw [if_neg same, if_neg fun eq => same (beq_iff_eq.mp eq).symm, ih]

/-- Where each key stands once, every entry is found. -/
theorem lookup_eq_some_of_mem {key : κ} {a : α} {table : List (κ × α)}
    (once : (table.map Prod.fst).Nodup) (h : (key, a) ∈ table) : table.lookup key = some a := by
  induction table with
  | nil => cases h
  | cons e rest ih =>
    obtain ⟨k, b⟩ := e
    obtain ⟨new, once⟩ := List.nodup_cons.mp once
    rw [lookup_cons_ite]
    rcases List.mem_cons.mp h with eq | later
    · cases eq
      exact if_pos rfl
    · have ne : key ≠ k := by
        rintro rfl
        exact new (List.mem_map.mpr ⟨(key, a), later, rfl⟩)
      rw [if_neg ne, ih once later]

end MarketStream
