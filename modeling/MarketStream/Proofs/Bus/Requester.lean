import MarketStream.Bus.Requester
import MarketStream.Proofs.Lookup

/-!
# The table of a requester

What each operation does to the request under every number: a request is entered, taken out or
updated without touching any other.

* `find?_remove`, `find?_issue` — entering and taking out;
* `receive_of_none`, `receive_of_incomplete`, `receive_of_complete` — what a segment can do;
* `lapse` — the time of one request is up; `expire_eq_lapseAll` — expiring is that, for each that
  is due;
* `Settles` — what an operation takes out of the table is what it resolves.
-/

namespace MarketStream.Bus.Requester

variable {r : Requester}

theorem find?_remove (r : Requester) (id other : Int64) :
    (r.remove id).find? other = if other = id then none else r.find? other :=
  lookup_filter_key_ne other id r.pending

theorem find?_issue (r : Requester) (now : Nat) (id other : Int64) :
    (r.issue now id).find? other =
      if other = id then some ⟨.empty, now + r.timeout⟩ else r.find? other := by
  show ((r.remove id).pending ++ [(id, _)]).lookup other = _
  have removed := find?_remove r id other
  rw [find?] at removed
  rw [List.lookup_append, removed, lookup_cons_ite]
  by_cases h : other = id
  · rw [if_pos h, if_pos h, if_pos h]
    rfl
  · rw [if_neg h, if_neg h, if_neg h]
    exact Option.or_none

/-- The table with another state of a reply. -/
def update (r : Requester) (id : Int64) (reassembly : Reassembly) : Requester :=
  { r with pending := r.pending.map fun e =>
      (e.1, if e.1 = id then { e.2 with reassembly } else e.2) }

theorem find?_update (r : Requester) (id : Int64) (reassembly : Reassembly) (other : Int64) :
    (r.update id reassembly).find? other =
      (r.find? other).map fun p => if other = id then { p with reassembly } else p :=
  lookup_map_value (fun k (p : Pending) => if k = id then ({ p with reassembly } : Pending) else p)
    other r.pending

/-! ## Segments -/

/-- A segment for a request that does not wait changes nothing. -/
theorem receive_of_none {m : Reply} (h : r.find? m.id = none) : r.receive m = (r, []) := by
  rw [receive, h]

/-- A segment that does not complete a reply is kept. -/
theorem receive_of_incomplete {m : Reply} {p : Pending} {a : Reassembly} {w : Option Reply}
    (h : r.find? m.id = some p) (feed : p.reassembly.feed m = (a, false, w)) :
    r.receive m = (r.update m.id a, []) := by
  rw [receive, h]
  dsimp only
  rw [feed]
  simp only [update, Prod.mk.injEq, and_true]
  congr 1
  refine List.map_congr_left fun e _ => ?_
  split
  · rfl
  · rfl

/-- A segment that completes a reply takes the request out. -/
theorem receive_of_complete {m : Reply} {p : Pending} {w : Option Reply}
    (h : r.find? m.id = some p) (feed : (p.reassembly.feed m).2 = (true, w)) :
    r.receive m = (r.remove m.id, w.toList.map fun whole => (m.id, outcome whole)) := by
  obtain ⟨a, eq⟩ : ∃ a, p.reassembly.feed m = (a, true, w) := ⟨_, Prod.ext rfl feed⟩
  rw [receive, h]
  dsimp only
  rw [eq]

/-! ## Time -/

/-- The time of one request is up. -/
def lapse (r : Requester) (id : Int64) : Requester × List Resolution :=
  (r.remove id, [(id, .error (.timeout id r.timeout))])

/-- The time of some requests is up, one after another. -/
def lapseAll (r : Requester) : List Int64 → Requester × List Resolution
  | [] => (r, [])
  | id :: rest =>
    (((r.lapse id).1.lapseAll rest).1, (r.lapse id).2 ++ ((r.lapse id).1.lapseAll rest).2)

theorem lapseAll_eq (r : Requester) (ids : List Int64) :
    r.lapseAll ids =
      ({ r with pending := r.pending.filter fun e => e.1 ∉ ids },
        ids.map fun id => (id, .error (.timeout id r.timeout))) := by
  induction ids generalizing r with
  | nil =>
    have kept : r.pending.filter (fun e => decide (e.1 ∉ ([] : List Int64))) = r.pending :=
      List.filter_eq_self.mpr fun e _ => by simp
    rw [lapseAll, kept]
    rfl
  | cons id rest ih =>
    rw [lapseAll, ih]
    simp only [lapse, remove, List.filter_filter, List.map_cons, List.singleton_append,
      Prod.mk.injEq, and_true]
    congr 1
    refine List.filter_congr fun e _ => ?_
    by_cases h : e.1 = id <;> simp [h]

/-- Expiring is the lapse of one request after another, of each whose time is up. -/
theorem expire_eq_lapseAll {now : Nat} (once : (r.pending.map Prod.fst).Nodup) :
    r.expire now
      = r.lapseAll ((r.pending.filter fun e => decide (e.2.deadline ≤ now)).map Prod.fst) := by
  rw [lapseAll_eq, expire, List.map_map]
  simp only [Prod.mk.injEq]
  refine ⟨?_, rfl⟩
  congr 1
  refine List.filter_congr fun e he => ?_
  have due_iff : e.1 ∈ (r.pending.filter fun e => decide (e.2.deadline ≤ now)).map Prod.fst
      ↔ e.2.deadline ≤ now := by
    constructor
    · intro h
      obtain ⟨e', he', eq⟩ := List.mem_map.mp h
      obtain ⟨mem, due⟩ := List.mem_filter.mp he'
      -- Each number stands once, so the due entry is this one.
      have same := lookup_eq_some_of_mem once (show (e.1, e'.2) ∈ r.pending from eq ▸ mem)
      rw [lookup_eq_some_of_mem once he] at same
      rw [Option.some.inj same]
      exact of_decide_eq_true due
    · exact fun due => List.mem_map_of_mem (List.mem_filter.mpr ⟨he, decide_eq_true due⟩)
  rw [decide_not, decide_eq_decide.mpr due_iff]

/-! ## Numbers in the table -/

/-- The numbers in the table. -/
def keys (r : Requester) : List Int64 := r.pending.map Prod.fst

variable {id : Int64}

theorem mem_keys_iff : id ∈ r.keys ↔ r.find? id ≠ none := by
  rw [find?, Ne, List.lookup_eq_none_iff, keys]
  simp

theorem keys_remove (r : Requester) (id : Int64) :
    (r.remove id).keys = r.keys.filter fun k => k != id := by
  rw [keys, keys, List.filter_map]
  rfl

theorem keys_update (r : Requester) (id : Int64) (reassembly : Reassembly) :
    (r.update id reassembly).keys = r.keys := by
  rw [keys, keys, update, List.map_map]
  rfl

/-- Taking out what is not there changes nothing. -/
theorem remove_of_not_mem (gone : id ∉ r.keys) : r.remove id = r := by
  have kept : r.pending.filter (fun e => e.1 != id) = r.pending := by
    refine List.filter_eq_self.mpr fun e he => bne_iff_ne.mpr ?_
    rintro rfl
    exact gone (List.mem_map_of_mem he)
  rw [remove, kept]

theorem keys_issue (now : Nat) (new : id ∉ r.keys) : (r.issue now id).keys = r.keys ++ [id] := by
  rw [issue, remove_of_not_mem new, keys, List.map_append]
  rfl

/-! ## What is resolved -/

/-- An operation takes out of the table what it resolves, and nothing else. -/
def Settles (r : Requester) (outcome : Requester × List Resolution) : Prop :=
  outcome.1.keys = r.keys.filter fun id => (outcome.2.lookup id).isNone

theorem settles_nothing {r' : Requester} (h : r'.keys = r.keys) : r.Settles (r', []) := by
  rw [Settles, h]
  exact (List.filter_eq_self.mpr fun _ _ => rfl).symm

theorem settles_remove (r : Requester) (id : Int64) (result : Except Fault Reply) :
    r.Settles (r.remove id, [(id, result)]) := by
  rw [Settles, keys_remove]
  refine List.filter_congr fun k _ => ?_
  rw [lookup_cons_ite]
  by_cases h : k = id <;> simp [h]

/-- Giving up resolves every request in the table. -/
theorem lookup_close (r : Requester) (id : Int64) :
    r.close.2.lookup id = (r.find? id).map fun _ => .error (.noResponse id) :=
  lookup_map_value (fun k (_ : Pending) => (.error (.noResponse k) : Except Fault Reply)) id r.pending

theorem settles_close (r : Requester) : r.Settles r.close := by
  have none_left : r.keys.filter (fun id => (r.close.2.lookup id).isNone) = [] := by
    refine List.filter_eq_nil_iff.mpr fun id h untold => mem_keys_iff.mp h ?_
    rw [lookup_close] at untold
    exact Option.map_eq_none_iff.mp (Option.isNone_iff_eq_none.mp untold)
  exact none_left.symm

/-- Someone still waits for each reply in the table. -/
def Awaited (r : Requester) : Prop := ∀ e ∈ r.pending, e.2.reassembly.awaited = true

theorem Awaited.remove (h : r.Awaited) (id : Int64) : (r.remove id).Awaited := fun e he =>
  h e (List.mem_filter.mp he).1

theorem Awaited.update (h : r.Awaited) {a : Reassembly} (awaited : a.awaited = true) :
    (r.update id a).Awaited := by
  intro e he
  obtain ⟨d, hd, rfl⟩ := List.mem_map.mp he
  dsimp only
  split
  · exact awaited
  · exact h d hd

theorem Awaited.issue (h : r.Awaited) (now : Nat) : (r.issue now id).Awaited := by
  intro e he
  rcases List.mem_append.mp he with old | new
  · exact h.remove id e old
  · rw [List.mem_singleton.mp new]
    rfl

/-- A segment completes an awaited reply, or leaves it awaited. -/
theorem feed_of_awaited {a : Reassembly} (awaited : a.awaited = true) (m : Reply) :
    (∃ whole, (a.feed m).2 = (true, some whole)) ∨
      ∃ a', a.feed m = (a', false, none) ∧ a'.awaited = true := by
  have complete (a' : Reassembly) (h : a'.awaited = true) (whole : Reply) :
      (a'.complete whole).2 = (true, some whole) := by
    rw [Reassembly.complete, if_pos h]
  rw [Reassembly.feed]
  split
  · exact .inl ⟨_, complete a awaited m⟩
  · split
    · exact .inr ⟨a, rfl, awaited⟩
    · dsimp only
      split
      · exact .inl ⟨_, complete _ awaited _⟩
      · exact .inr ⟨_, rfl, awaited⟩

/-- What a segment can do: nothing; or its request goes on waiting; or its request is resolved. -/
theorem Awaited.receive_cases (h : r.Awaited) (m : Reply) :
    (m.id ∉ r.keys ∧ r.receive m = (r, [])) ∨
      (∃ a, a.awaited = true ∧ r.receive m = (r.update m.id a, [])) ∨
        ∃ result, r.receive m = (r.remove m.id, [(m.id, result)]) := by
  cases found : r.find? m.id with
  | none => exact .inl ⟨fun mem => mem_keys_iff.mp mem found, receive_of_none found⟩
  | some p =>
    rcases feed_of_awaited (h _ (mem_of_lookup found)) m with ⟨whole, feed⟩ | ⟨a, feed, awaited⟩
    · exact .inr (.inr ⟨outcome whole, receive_of_complete found feed⟩)
    · exact .inr (.inl ⟨a, awaited, receive_of_incomplete found feed⟩)

theorem Awaited.settles_receive (h : r.Awaited) (m : Reply) : r.Settles (r.receive m) := by
  rcases h.receive_cases m with ⟨-, eq⟩ | ⟨a, -, eq⟩ | ⟨result, eq⟩
  · exact eq ▸ settles_nothing rfl
  · exact eq ▸ settles_nothing (keys_update r m.id a)
  · exact eq ▸ settles_remove r m.id result

theorem Awaited.receive (h : r.Awaited) (m : Reply) : (r.receive m).1.Awaited := by
  rcases h.receive_cases m with ⟨-, eq⟩ | ⟨a, awaited, eq⟩ | ⟨result, eq⟩
  · exact eq ▸ h
  · exact eq ▸ h.update awaited
  · exact eq ▸ h.remove m.id

end MarketStream.Bus.Requester
