import Mathlib.Data.String.Basic
import MarketStream.Json.Reader
import MarketStream.Proofs.Lookup

/-!
# Members of objects

The members of an object are kept in increasing order of their keys, so each key occurs once and
looking a key up decides what it stands for. Every way of building members keeps the order.

* `Members.Ascending` — the order; `Members.find?_insert` — looking up after setting a key;
* `Members.find?_foldl_insert` — setting many keys, those of an object in order;
* `ascending_of_readMembers?` — the members read from a text are in order.
-/

namespace MarketStream.Json

namespace Members

/-- The keys increase. -/
def Ascending (ms : Members) : Prop := ms.Pairwise fun a b => a.1 < b.1

theorem ascending_nil : Ascending [] := List.Pairwise.nil

@[simp] theorem find?_nil (key : String) : find? key [] = none := rfl

theorem find?_cons (key k : String) (v : Value) (rest : Members) :
    find? key ((k, v) :: rest) = if key = k then some v else find? key rest :=
  lookup_cons_ite key k v rest

/-- Nothing is found under a key before the first. -/
theorem find?_eq_none_of_lt {key : String} {ms : Members} (h : ∀ m ∈ ms, key < m.1) :
    find? key ms = none := by
  induction ms with
  | nil => rfl
  | cons m rest ih =>
    obtain ⟨k, v⟩ := m
    rw [find?_cons, if_neg (h (k, v) (by simp)).ne, ih fun m hm => h m (by simp [hm])]

/-- Looking up after setting a key: the key has the new value, any other what it had. -/
theorem find?_insert (key name : String) (value : Value) (ms : Members) :
    find? key (insert name value ms) = if key = name then some value else find? key ms := by
  induction ms with
  | nil => simp [insert, find?_cons]
  | cons m rest ih =>
    obtain ⟨k, v⟩ := m
    rw [insert]
    split
    · next same =>
      subst same
      rw [find?_cons, find?_cons]
      split <;> rfl
    · next ne =>
      split
      · exact find?_cons ..
      · rw [find?_cons, find?_cons, ih]
        by_cases h : key = k
        · rw [if_pos h, if_pos h, if_neg fun eq => ne (eq.symm.trans h)]
        · rw [if_neg h, if_neg h]

theorem mem_insert {m : String × Value} {name : String} {value : Value} {ms : Members}
    (h : m ∈ insert name value ms) : m = (name, value) ∨ m ∈ ms := by
  induction ms with
  | nil => exact .inl (List.mem_singleton.mp h)
  | cons head rest ih =>
    obtain ⟨k, v⟩ := head
    rw [insert] at h
    split at h
    · rcases List.mem_cons.mp h with h | h
      · exact .inl h
      · exact .inr (List.mem_cons_of_mem _ h)
    · split at h
      · exact List.mem_cons.mp h
      · rcases List.mem_cons.mp h with h | h
        · exact .inr (h ▸ List.mem_cons_self)
        · exact (ih h).imp_right (List.mem_cons_of_mem _)

/-- Setting a key keeps the order. -/
theorem Ascending.insert {ms : Members} (h : Ascending ms) (name : String) (value : Value) :
    Ascending (insert name value ms) := by
  induction ms with
  | nil => exact List.pairwise_singleton _ _
  | cons m rest ih =>
    obtain ⟨k, v⟩ := m
    obtain ⟨first, rest_ascending⟩ := List.pairwise_cons.mp h
    rw [Members.insert]
    split
    · next same =>
      subst same
      exact List.pairwise_cons.mpr ⟨first, rest_ascending⟩
    · next ne =>
      split
      · next lt =>
        refine List.pairwise_cons.mpr ⟨fun x hx => ?_, h⟩
        rcases List.mem_cons.mp hx with rfl | hx
        · exact lt
        · exact lt.trans (first x hx)
      · next notLt =>
        refine List.pairwise_cons.mpr ⟨fun x hx => ?_, ih rest_ascending⟩
        rcases mem_insert hx with rfl | hx
        · exact lt_of_le_of_ne (not_lt.mp notLt) (Ne.symm ne)
        · exact first x hx

/-- Setting the keys of `u` one after another keeps the order. -/
theorem Ascending.foldl_insert {ms : Members} (h : Ascending ms) (u : List (String × Value)) :
    Ascending (u.foldl (fun ms (key, value) => ms.insert key value) ms) := by
  induction u generalizing ms with
  | nil => exact h
  | cons m rest ih => exact ih (h.insert m.1 m.2)

theorem ascending_ofList (entries : List (String × Value)) : Ascending (ofList entries) :=
  ascending_nil.foldl_insert entries

/-- Looking up after setting the keys of `u`, each of which occurs once. -/
theorem find?_foldl_insert {u : Members} (h : Ascending u) (ms : Members) (key : String) :
    find? key (u.foldl (fun ms (key, value) => ms.insert key value) ms)
      = (find? key u).or (find? key ms) := by
  induction u generalizing ms with
  | nil => rfl
  | cons m rest ih =>
    obtain ⟨k, v⟩ := m
    obtain ⟨first, rest_ascending⟩ := List.pairwise_cons.mp h
    rw [List.foldl_cons, ih rest_ascending, find?_cons, find?_insert]
    by_cases eq : key = k
    · rw [if_pos eq, if_pos eq, eq, find?_eq_none_of_lt first]
      rfl
    · rw [if_neg eq, if_neg eq]

end Members

/-- The members of an object that is read are in order. -/
theorem ascending_of_readMembers? {input : Input} {ms : Members}
    (h : readMembers? input = some ms) : ms.Ascending := by
  obtain ⟨parts, -, h⟩ := Option.bind_eq_some_iff.mp h
  obtain ⟨entries, -, rfl⟩ := Option.map_eq_some_iff.mp h
  exact Members.ascending_ofList entries

end MarketStream.Json
