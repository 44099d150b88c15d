import Mathlib.Data.List.Pairwise
import MarketStream.Registry
import MarketStream.Proofs.Lookup
import MarketStream.Proofs.Text.Numeral

/-!
# The entries of a registry

As long as no id is given out twice, a registry has one entry for each id and at most one for each
stream, whose command is that of its stream. Whatever is done with it keeps it so.

* `Registry.serialIds` — a supply of distinct ids;
* `Registry.Orderly` — what holds of a registry at any time;
* `Registry.without` — a registry with an entry removed; `Registry.remove?_eq` — what removing does.
-/

namespace MarketStream

theorem StreamKey.normalized_normalized (k : StreamKey) : k.normalized.normalized = k.normalized := by
  by_cases news : k.kindName = Frame.Kind.news.name
  · simp [StreamKey.normalized, news]
  · simp [StreamKey.normalized, news]

namespace Registry

variable {r : Registry}

/-! ## Looking for entries -/

theorem find?_eq_none {key : StreamKey} :
    r.find? key = none ↔ ∀ s ∈ r.subscriptions, s.key ≠ some key := by
  simp [find?, List.find?_eq_none]

theorem find?_eq_some {key : StreamKey} {s : Subscription} (h : r.find? key = some s) :
    s ∈ r.subscriptions ∧ s.key = some key :=
  ⟨List.mem_of_find?_eq_some h, beq_iff_eq.mp (List.find?_some h :)⟩

theorem enrol_of_some {key : StreamKey} {s : Subscription} (found : r.find? key = some s)
    (c : Command) : r.enrol key c = (r, s.id) := by
  rw [enrol, found]

theorem enrol_of_none {key : StreamKey} (absent : r.find? key = none) (c : Command) :
    r.enrol key c = r.register (some key) c := by
  rw [enrol, absent]

/-- The registry without the entry with an id. -/
def without (r : Registry) (id : String) : Registry :=
  { r with subscriptions := r.subscriptions.filter fun s => s.id != id }

theorem mem_without {id : String} {s : Subscription} :
    s ∈ (r.without id).subscriptions ↔ s ∈ r.subscriptions ∧ s.id ≠ id := by
  simp [without]

theorem without_of_absent {id : String} (absent : ∀ s ∈ r.subscriptions, s.id ≠ id) :
    r.without id = r := by
  have all : r.subscriptions.filter (fun s => s.id != id) = r.subscriptions :=
    List.filter_eq_self.mpr fun s hs => bne_iff_ne.mpr (absent s hs)
  rw [without, all]

/-! ## Ids -/

/-- Ids made of serial numbers, as a sample of a supply. -/
def serialIds (n : Nat) : String := "$" ++ String.ofList (Text.natural n)

theorem serialIds_injective : Function.Injective serialIds := fun m n h => by
  have digits : Text.natural m = Text.natural n :=
    String.ofList_injective ((String.append_right_inj "$").mp h)
  exact Text.natural_injective digits

/-! ## Orderly registries -/

/-- What holds of a registry at any time. -/
structure Orderly (r : Registry) : Prop where
  /-- No id is given out twice. -/
  distinct : Function.Injective r.ids
  /-- Every id was given out. -/
  issued : ∀ s ∈ r.subscriptions, ∃ serial ≤ r.issued, s.id = r.ids serial
  /-- Every entry has an id of its own. -/
  ids : (r.subscriptions.map Subscription.id).Nodup
  /-- No stream has two entries. -/
  keys : (r.subscriptions.filterMap Subscription.key).Nodup
  /-- The command of an entry is that of its stream. -/
  own : ∀ s ∈ r.subscriptions, ∀ key, s.key = some key →
    key.normalized = key ∧ key.command "subscribe" = .ok s.command

theorem orderly_empty {ids : Nat → String} (distinct : Function.Injective ids) :
    (empty ids).Orderly where
  distinct := distinct
  issued _ h := by cases h
  ids := List.nodup_nil
  keys := List.nodup_nil
  own _ h := by cases h

/-- The next id is new. -/
theorem Orderly.next_not_mem (h : r.Orderly) :
    r.ids (r.issued + 1) ∉ r.subscriptions.map Subscription.id := by
  intro mem
  obtain ⟨s, hs, eq⟩ := List.mem_map.mp mem
  obtain ⟨serial, le, id_eq⟩ := h.issued s hs
  have same : serial = r.issued + 1 := h.distinct (id_eq.symm.trans eq)
  omega

theorem Orderly.register (h : r.Orderly) {key : Option StreamKey} {c : Command}
    (new : ∀ k, key = some k → r.find? k = none)
    (own : ∀ k, key = some k → k.normalized = k ∧ k.command "subscribe" = .ok c) :
    (r.register key c).1.Orderly where
  distinct := h.distinct
  issued s hs := by
    rcases List.mem_append.mp hs with old | added
    · obtain ⟨serial, le, id_eq⟩ := h.issued s old
      exact ⟨serial, Nat.le_succ_of_le le, id_eq⟩
    · rw [List.mem_singleton.mp added]
      exact ⟨_, Nat.le_refl _, rfl⟩
  ids := nodup_map_concat h.ids h.next_not_mem
  keys := by
    show ((r.subscriptions ++ [_]).filterMap Subscription.key).Nodup
    rw [List.filterMap_append]
    cases key with
    | none => simpa using h.keys
    | some k =>
      refine List.concat_eq_append ▸ h.keys.concat fun mem => ?_
      obtain ⟨s, hs, key_eq⟩ := List.mem_filterMap.mp mem
      exact find?_eq_none.mp (new k rfl) s hs key_eq
  own s hs k key_eq := by
    rcases List.mem_append.mp hs with old | added
    · exact h.own s old k key_eq
    · rw [List.mem_singleton.mp added] at key_eq ⊢
      exact own k key_eq

theorem Orderly.enrol (h : r.Orderly) {key : StreamKey} {c : Command}
    (normal : key.normalized = key) (built : key.command "subscribe" = .ok c) :
    (r.enrol key c).1.Orderly := by
  cases found : r.find? key with
  | some s => exact enrol_of_some found c ▸ h
  | none =>
    rw [enrol_of_none found]
    refine h.register (fun k eq => ?_) fun k eq => ?_
    · exact Option.some.inj eq ▸ found
    · exact Option.some.inj eq ▸ ⟨normal, built⟩

theorem Orderly.without (h : r.Orderly) (id : String) : (r.without id).Orderly where
  distinct := h.distinct
  issued s hs := h.issued s (mem_without.mp hs).1
  ids := h.ids.sublist (List.filter_sublist.map _)
  keys := h.keys.sublist (List.filter_sublist.filterMap _)
  own s hs := h.own s (mem_without.mp hs).1

/-- Entries are known by their ids. -/
theorem Orderly.eq_of_id_eq (h : r.Orderly) {s t : Subscription} (hs : s ∈ r.subscriptions)
    (ht : t ∈ r.subscriptions) (eq : s.id = t.id) : s = t :=
  List.inj_on_of_nodup_map h.ids hs ht eq

/-- Entries of streams are known by their keys. -/
theorem Orderly.eq_of_key_eq (h : r.Orderly) {key : StreamKey} {s t : Subscription}
    (hs : s ∈ r.subscriptions) (ht : t ∈ r.subscriptions) (own : s.key = some key)
    (same : t.key = some key) : s = t := by
  by_contra ne
  let Apart (u v : Subscription) := ∀ k, u.key = some k → ∀ l, v.key = some l → k ≠ l
  have symm : Std.Symm Apart := ⟨fun _ _ apart l el k ek => (apart k ek l el).symm⟩
  have apart : r.subscriptions.Pairwise Apart := List.pairwise_filterMap.mp h.keys
  exact apart.forall hs ht ne key own key same rfl

/-- The entry of a stream is found. -/
theorem Orderly.find?_of_mem (h : r.Orderly) {key : StreamKey} {s : Subscription}
    (hs : s ∈ r.subscriptions) (own : s.key = some key) : r.find? key = some s := by
  cases found : r.find? key with
  | none => exact absurd own (find?_eq_none.mp found s hs)
  | some t =>
    obtain ⟨ht, same⟩ := find?_eq_some found
    rw [h.eq_of_key_eq hs ht own same]

theorem remove?_eq_none {id : String} (h : r.remove? id = none) :
    ∀ s ∈ r.subscriptions, s.id ≠ id := by
  simpa [remove?, List.find?_eq_none] using h

/-- What removing does. -/
theorem Orderly.remove?_eq_some (h : r.Orderly) {id : String} {r' : Registry} {s : Subscription}
    (removed : r.remove? id = some (r', s)) :
    s ∈ r.subscriptions ∧ s.id = id ∧ r' = r.without id := by
  obtain ⟨t, found, eq⟩ := Option.map_eq_some_iff.mp removed
  obtain ⟨rfl, rfl⟩ := Prod.mk.inj eq
  obtain ⟨own, before, rest, cut, others⟩ := List.find?_eq_some_iff_append.mp found
  have id_eq : t.id = id := beq_iff_eq.mp own
  have mem : t ∈ r.subscriptions := cut ▸ List.mem_append_right _ List.mem_cons_self
  refine ⟨mem, id_eq, ?_⟩
  -- No later entry has the same id.
  have later : ∀ u ∈ rest, u.id ≠ id := by
    have ids := h.ids
    rw [cut, List.map_append, List.map_cons] at ids
    intro u hu same
    have fresh := (List.nodup_cons.mp ids.of_append_right).1
    exact fresh (id_eq.trans same.symm ▸ List.mem_map_of_mem hu)
  have earlier : ∀ u ∈ before, u.id ≠ id := fun u hu => by simpa using others u hu
  rw [Registry.without, cut, List.eraseP_append_right _ (by simpa using earlier),
    List.eraseP_cons_of_pos (by simpa using id_eq), List.filter_append,
    List.filter_cons_of_neg (by simpa using id_eq),
    List.filter_eq_self.mpr (by simpa using earlier),
    List.filter_eq_self.mpr (by simpa using later)]

end MarketStream.Registry
