import MarketStream.Proofs.Cache.Belonging
import MarketStream.Proofs.StableOrder

/-!
# What a cache is asked for

A cache can be asked for one snapshot, for a listing of snapshots, for the orders it holds and for
how many snapshots of each kind there are. All answers are about the same entries: a listing has
each entry that fits once, in order, with the snapshot that is found under its key, and the counts
are those of the full listing.

* `Filed.keys`, `Cache.nodup_keys_filed` — each key has one entry;
* `Filed.Lists`, `Filed.lists_mergeSort` — the entries that fit, in the order of a text;
* `Cache.Counts`, `Cache.counts_tallies` — names with how often each occurs;
* `Cache.queries_agree` — what the answers have to do with each other after any run of merges.
-/

namespace MarketStream

namespace Filed

variable {κ : Type} [DecidableEq κ] {filed : Filed κ}

/-! ## Keys -/

/-- The keys of the entries. -/
def keys (filed : Filed κ) : List κ := filed.map Prod.fst

omit [DecidableEq κ] in
theorem keys_cons (k : κ) (s : Snapshot) (rest : Filed κ) :
    keys ((k, s) :: rest) = k :: keys rest := rfl

theorem keys_put (key : κ) (u : Json.Members) (filed : Filed κ) :
    keys (put key u filed) = if key ∈ keys filed then keys filed else keys filed ++ [key] := by
  induction filed with
  | nil => rfl
  | cons entry rest ih =>
    obtain ⟨k, s⟩ := entry
    rw [put]
    by_cases same : k = key
    · rw [if_pos same, keys_cons, keys_cons, if_pos (by simp [same])]
    · rw [if_neg same, keys_cons, keys_cons, ih]
      by_cases later : key ∈ keys rest
      · rw [if_pos later, if_pos (List.mem_cons_of_mem _ later)]
      · rw [if_neg later, if_neg (by simp [Ne.symm same, later]), List.cons_append]

/-- Each key keeps having one entry. -/
theorem nodup_keys_write (once : (keys filed).Nodup) (w : Option (κ × Json.Members)) :
    (keys (filed.write w)).Nodup := by
  cases w with
  | none => exact once
  | some w =>
    rw [write, keys_put]
    split
    · exact once
    · next new => exact List.concat_eq_append ▸ once.concat new

/-! ## Listings -/

/-- These are the keys that fit of all entries, each once, in the order of a text. -/
structure Lists (filed : Filed κ) (fits : κ → Prop) (text : κ → String) (listed : List κ) :
    Prop where
  /-- Each key is listed once. -/
  once : listed.Nodup
  /-- The keys of snapshots that fit are listed, and no others. -/
  mem_iff : ∀ key, key ∈ listed ↔ (find? key filed).isSome ∧ fits key
  /-- They are in the order of the text. -/
  inOrder : listed.Pairwise fun a b => text a ≤ text b

omit [DecidableEq κ] in
theorem ranking_of_text (text : κ → String) :
    Ranking fun a b : κ × Snapshot => text a.1 ≤ text b.1 := by
  refine ⟨fun a b c ab bc => ?_, fun a b => ?_⟩
  · exact decide_eq_true (String.le_trans (of_decide_eq_true ab) (of_decide_eq_true bc))
  · simpa using String.le_total (text a.1) (text b.1)

/-- Sorting the entries that fit by a text lists their keys, each with the snapshot that is found
under it. -/
theorem lists_mergeSort (once : (keys filed).Nodup) {passes : κ → Bool} {fits : κ → Prop}
    (passes_iff : ∀ key, passes key = true ↔ fits key) (text : κ → String) :
    let sorted := (filed.filter fun e => passes e.1).mergeSort fun a b => text a.1 ≤ text b.1
    filed.Lists fits text (keys sorted) ∧
      ∀ key s, (key, s) ∈ sorted → find? key filed = some s := by
  intro sorted
  have perm : sorted.Perm (filed.filter fun e => passes e.1) := List.mergeSort_perm ..
  refine ⟨⟨?_, ?_, ?_⟩, ?_⟩
  · exact (perm.map Prod.fst).nodup_iff.mpr (once.sublist (List.filter_sublist.map _))
  · intro key
    have found : (find? key filed).isSome ↔ key ∈ keys filed := isSome_lookup_iff
    rw [found, ← passes_iff]
    simp [keys, perm.mem_iff]
  · refine List.pairwise_map.mpr ?_
    exact ((ranking_of_text text).pairwise_mergeSort _).imp of_decide_eq_true
  · intro key s mem
    exact lookup_eq_some_of_mem once (List.mem_filter.mp (perm.mem_iff.mp mem)).1

end Filed

namespace Cache

/-! ## Counting -/

/-- Names in order, each with how often it occurs, leaving out those that do not. -/
structure Counts (names : List String) (counts : List (String × Nat)) : Prop where
  /-- The names increase. -/
  ascending : counts.Pairwise fun a b => a.1 < b.1
  /-- A name is there if it occurs, with the number of times. -/
  mem_iff : ∀ name n, (name, n) ∈ counts ↔ 0 < n ∧ names.count name = n

theorem lookup_tally {counts : List (String × Nat)}
    (ascending : counts.Pairwise fun a b => a.1 < b.1) (name k : String) :
    (tally name counts).lookup k
      = if k = name then some ((counts.lookup name).getD 0 + 1) else counts.lookup k := by
  induction counts with
  | nil => exact lookup_cons_ite k name 1 []
  | cons entry rest ih =>
    obtain ⟨k', n⟩ := entry
    obtain ⟨first, rest_ascending⟩ := List.pairwise_cons.mp ascending
    rw [tally, lookup_cons_ite name]
    by_cases same : name = k'
    · rw [if_pos same, if_pos same, lookup_cons_ite, lookup_cons_ite, same]
      split <;> rfl
    · rw [if_neg same, if_neg same]
      split
      · next before =>
        -- The name would stand before all others, so it is not there yet.
        have absent : rest.lookup name = none := by
          refine lookup_eq_none_of_not_mem fun mem => ?_
          obtain ⟨e, he, eq⟩ := List.mem_map.mp mem
          exact String.lt_irrefl name (String.lt_trans before (eq ▸ first e he))
        rw [lookup_cons_ite, absent]
        rfl
      · rw [lookup_cons_ite, lookup_cons_ite, ih rest_ascending]
        by_cases own : k = k'
        · rw [if_pos own, if_pos own, if_neg fun eq => same (eq.symm.trans own)]
        · rw [if_neg own, if_neg own]

theorem mem_of_mem_tally {name : String} {counts : List (String × Nat)} {e : String × Nat}
    (h : e ∈ tally name counts) : e.1 = name ∨ e.1 ∈ counts.map Prod.fst := by
  induction counts with
  | nil => exact .inl (List.mem_singleton.mp h ▸ rfl)
  | cons entry rest ih =>
    obtain ⟨k, n⟩ := entry
    rw [tally] at h
    split at h
    · next same =>
      rcases List.mem_cons.mp h with rfl | later
      · exact .inl same.symm
      · exact .inr (List.mem_cons_of_mem _ (List.mem_map_of_mem later))
    · split at h
      · rcases List.mem_cons.mp h with rfl | old
        · exact .inl rfl
        · exact .inr (List.mem_map_of_mem old)
      · rcases List.mem_cons.mp h with rfl | later
        · exact .inr List.mem_cons_self
        · exact (ih later).imp_right (List.mem_cons_of_mem _)

theorem ascending_tally {counts : List (String × Nat)}
    (ascending : counts.Pairwise fun a b => a.1 < b.1) (name : String) :
    (tally name counts).Pairwise fun a b => a.1 < b.1 := by
  induction counts with
  | nil => exact List.pairwise_singleton _ _
  | cons entry rest ih =>
    obtain ⟨k, n⟩ := entry
    obtain ⟨first, rest_ascending⟩ := List.pairwise_cons.mp ascending
    rw [tally]
    split
    · exact List.pairwise_cons.mpr ⟨first, rest_ascending⟩
    · next differs =>
      split
      · next before =>
        refine List.pairwise_cons.mpr ⟨fun e he => ?_, ascending⟩
        rcases List.mem_cons.mp he with rfl | later
        · exact before
        · exact String.lt_trans before (first e later)
      · next notBefore =>
        refine List.pairwise_cons.mpr ⟨fun e he => ?_, ih rest_ascending⟩
        rcases mem_of_mem_tally he with eq | later
        · rw [eq]
          exact lt_of_le_of_ne (not_lt.mp notBefore) (Ne.symm differs)
        · obtain ⟨e', he', eq⟩ := List.mem_map.mp later
          exact eq ▸ first e' he'

/-- Counting names one after another. -/
def tallies (names : List String) : List (String × Nat) :=
  names.foldl (fun counts name => tally name counts) []

theorem tallies_snoc (names : List String) (name : String) :
    tallies (names ++ [name]) = tally name (tallies names) := List.foldl_concat ..

theorem ascending_tallies (names : List String) :
    (tallies names).Pairwise fun a b => a.1 < b.1 := by
  induction names using List.reverseRecOn with
  | nil => exact List.Pairwise.nil
  | append_singleton before name ih => exact tallies_snoc before name ▸ ascending_tally ih name

theorem lookup_tallies (names : List String) (k : String) :
    (tallies names).lookup k = if names.count k = 0 then none else some (names.count k) := by
  induction names using List.reverseRecOn generalizing k with
  | nil => rfl
  | append_singleton before name ih =>
    rw [tallies_snoc, lookup_tally (ascending_tallies before), List.count_append,
      List.count_singleton]
    by_cases same : k = name
    · subst same
      rw [if_pos rfl, ih]
      by_cases first : before.count k = 0 <;> simp [first]
    · rw [if_neg same, ih]
      simp [Ne.symm same]

/-- Each name that occurs is there, with the number of times. -/
theorem counts_tallies (names : List String) : Counts names (tallies names) := by
  have ascending := ascending_tallies names
  have once : ((tallies names).map Prod.fst).Nodup :=
    List.pairwise_map.mpr (ascending.imp fun lt => lt.ne)
  refine ⟨ascending, fun name n => ?_⟩
  have found : (name, n) ∈ tallies names ↔ (tallies names).lookup name = some n :=
    ⟨lookup_eq_some_of_mem once, mem_of_lookup⟩
  rw [found, lookup_tallies]
  split <;> simp <;> omega

/-! ## Caches that runs lead to -/

/-- Each key of a cache has one entry. -/
theorem nodup_keys_filed (filings : List Filing) :
    (Filed.keys (filed filings).streams).Nodup ∧ (Filed.keys (filed filings).orders).Nodup := by
  let Once (c : Cache) : Prop := (Filed.keys c.streams).Nodup ∧ (Filed.keys c.orders).Nodup
  have start : Once empty := ⟨List.nodup_nil, List.nodup_nil⟩
  refine List.foldlRecOn filings file (motive := Once) start ?_
  rintro c ⟨streams, orders⟩ x -
  rw [file_eq]
  exact ⟨Filed.nodup_keys_write streams _, Filed.nodup_keys_write orders _⟩

/-- A key fits filters for instrument and market: those that there are ask for what the key has. -/
def Fits (identifier market : Option String) (key : StreamKey) : Prop :=
  (∀ i ∈ identifier, i = key.identifier) ∧ ∀ m ∈ market, m = key.market

theorem matching_spec (filings : List Filing) (identifier market : Option String) :
    let c := filed filings
    c.streams.Lists (Fits identifier market) StreamKey.display
        (Filed.keys (c.matching identifier market)) ∧
      ∀ key s, (key, s) ∈ c.matching identifier market → c.get? key = some s := by
  intro c
  have fits_iff : ∀ key : StreamKey,
      (identifier.all (· == key.identifier) && market.all (· == key.market)) = true
        ↔ Fits identifier market key := by
    intro key
    cases identifier <;> cases market <;> simp [Fits]
  obtain ⟨lists, found⟩ :=
    Filed.lists_mergeSort (nodup_keys_filed filings).1 fits_iff StreamKey.display
  refine ⟨lists, fun key s mem => ?_⟩
  have there := found key s mem
  -- The key of an entry has no field that its kind does not use.
  have plain : key.stateKey = key := ((belongs_filed filings).streams key s (mem_of_lookup there)).2
  rw [get?, plain, there]

theorem orderList_spec (filings : List Filing) :
    let c := filed filings
    ∃ keys : List String, c.orders.Lists (fun _ => True) id keys ∧
      c.orderList.map some = keys.map fun key => Filed.find? key c.orders := by
  intro c
  have all : ∀ _ : String, true = true ↔ True := fun _ => by decide
  obtain ⟨lists, found⟩ := Filed.lists_mergeSort (nodup_keys_filed filings).2 all id
  rw [List.filter_true] at lists found
  refine ⟨_, lists, ?_⟩
  rw [orderList, Filed.keys, List.map_map, List.map_map]
  refine List.map_congr_left ?_
  rintro ⟨key, s⟩ mem
  exact (found key s mem).symm

/-- The summary counts the kinds of all streams. -/
theorem summary_streams (c : Cache) :
    c.summary.streams = tallies (c.streams.map fun e => e.1.kindName) := by
  rw [tallies, List.foldl_map]
  rfl

/-- In whatever order names are counted, the counts are the same. -/
theorem Counts.of_perm {names names' : List String} {counts : List (String × Nat)}
    (h : Counts names counts) (perm : names.Perm names') : Counts names' counts :=
  ⟨h.ascending, fun name n => by rw [h.mem_iff, perm.count_eq]⟩

/-- **The answers of a cache agree.** After any run of merges, of streams and of orders: whatever
the filters for instrument and market, a listing has every stream with a snapshot that fits them
once, in the order in which their keys are displayed, by its kind and with the snapshot that is
found under its key. The summary has each kind of which the full listing has any, once and in order,
with how many it has. The listing of orders has every order once, in the order of their keys, with
the snapshot that is filed under its key, and the summary has how many there are. -/
theorem queries_agree (filings : List Filing) :
    let c := filed filings
    (∀ identifier market, ∃ keys : List StreamKey,
      c.streams.Lists (Fits identifier market) StreamKey.display keys ∧
      (c.snapshots identifier market).map (fun e => (e.1, some e.2))
        = keys.map fun key => (key.kindName, c.get? key)) ∧
    Counts ((c.snapshots none none).map Prod.fst) c.summary.streams ∧
    (∃ keys : List String,
      c.orders.Lists (fun _ => True) id keys ∧
      c.orderList.map some = keys.map fun key => Filed.find? key c.orders) ∧
    c.summary.orders = c.orderList.length := by
  intro c
  refine ⟨?_, ?_, orderList_spec filings, ?_⟩
  · intro identifier market
    obtain ⟨lists, found⟩ := matching_spec filings identifier market
    refine ⟨_, lists, ?_⟩
    rw [snapshots, Filed.keys, List.map_map, List.map_map]
    refine List.map_congr_left ?_
    rintro ⟨key, s⟩ mem
    exact congrArg (Prod.mk key.kindName) (found key s mem).symm
  · have all : (c.matching none none).Perm c.streams :=
      (List.mergeSort_perm ..).trans (.of_eq (List.filter_eq_self.mpr fun _ _ => rfl))
    rw [summary_streams]
    refine (counts_tallies _).of_perm ?_
    rw [snapshots, List.map_map]
    exact (all.map fun e => e.1.kindName).symm
  · rw [orderList, List.length_map, List.length_mergeSort]
    rfl

end Cache

end MarketStream
