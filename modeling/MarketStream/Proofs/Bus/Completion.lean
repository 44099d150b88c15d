import Mathlib.Data.List.Sort
import MarketStream.Proofs.Bus.Reassembly
import MarketStream.Proofs.Lookup

/-!
# What a completed reply is made of

A collector counts. It takes the reply for complete once it holds as many segments as the segment at
hand says there are, and puts together what it holds. Segments that name different counts may meet in
one collector; then as many as the last of them names need not be the lowest ones.

* `InRange`, `Came`, `firstPayload?` — which segments count, and which of their payloads;
* `Keeps` — a collector holds the first payload of every number that came; `keeps_feedAll` — it does
  as long as nothing is complete;
* `Keeps.eq_upTo_iff` — when as many numbers as are held are the lowest ones;
* `completes_from_lowest_iff` — what a completed reply is made of, and when that is what it should be.
-/

namespace MarketStream.Bus

/-! ## The segments that count -/

/-- The number of a segment is one of those that it says there are. Any other segment is ignored. -/
def InRange (m : Reply) : Prop := 1 ≤ m.seq.toInt ∧ m.seq.toInt ≤ m.numSeq.toInt

instance (m : Reply) : Decidable (InRange m) := inferInstanceAs (Decidable (_ ∧ _))

/-- A segment with this number came, and was not ignored. -/
def Came (msgs : List Reply) (n : Int) : Prop := ∃ m ∈ msgs, InRange m ∧ m.seq.toInt = n

/-- The payload of the first segment with this number that was not ignored. -/
def firstPayload? (msgs : List Reply) (n : Int) : Option Bytes :=
  (msgs.find? fun m => InRange m ∧ m.seq.toInt = n).map Reply.payload

/-- The first payloads of some numbers, put together. -/
def gathered (msgs : List Reply) (numbers : List Int) : Bytes :=
  numbers.flatMap fun n => (firstPayload? msgs n).getD []

/-- The numbers from one to `count`. -/
def upTo (count : Nat) : List Int := (List.range count).map fun i : Nat => (i : Int) + 1

section

variable {msgs : List Reply} {m : Reply} {n : Int}

theorem isSome_firstPayload? : (firstPayload? msgs n).isSome ↔ Came msgs n := by
  simp [firstPayload?, Came]

/-- One more segment matters only if it is the first with its number. -/
theorem firstPayload?_concat : firstPayload? (msgs ++ [m]) n
    = (firstPayload? msgs n).or (if InRange m ∧ m.seq.toInt = n then some m.payload else none) := by
  rw [firstPayload?, List.find?_append, firstPayload?, List.find?_singleton]
  cases msgs.find? _ with
  | some first => rfl
  | none => simp only [decide_eq_true_eq, Option.none_or, Option.map_none]; split <;> rfl

theorem mem_upTo {count : Nat} : n ∈ upTo count ↔ 1 ≤ n ∧ n ≤ count := by
  rw [upTo, List.mem_map]
  constructor
  · rintro ⟨i, hi, rfl⟩
    have := List.mem_range.mp hi
    omega
  · rintro ⟨one, le⟩
    exact ⟨(n - 1).toNat, List.mem_range.mpr (by omega), by omega⟩

theorem length_upTo (count : Nat) : (upTo count).length = count := by
  rw [upTo, List.length_map, List.length_range]

theorem pairwise_upTo (count : Nat) : (upTo count).Pairwise (· < ·) := by
  rw [upTo, List.pairwise_map]
  exact List.pairwise_lt_range.imp fun h => by omega

/-- Numbers in order that are among as many others in order are all of them. -/
theorem eq_of_subset_of_length_le {xs ys : List Int} (hx : xs.Pairwise (· < ·))
    (hy : ys.Pairwise (· < ·)) (sub : xs ⊆ ys) (le : ys.length ≤ xs.length) : xs = ys :=
  ((List.subperm_of_subset hx.nodup sub).perm_of_length_le le).eq_of_pairwise' hx hy

end

/-! ## What a collector holds -/

section

variable {seq n : Int} {payload : Bytes} {parts : List (Int × Bytes)}

theorem mem_file {e : Int × Bytes} (h : e ∈ Reassembly.file seq payload parts) :
    e = (seq, payload) ∨ e ∈ parts := by
  induction parts with
  | nil => exact .inl (List.mem_singleton.mp h)
  | cons first rest ih =>
    obtain ⟨k, p⟩ := first
    rw [Reassembly.file] at h
    split at h
    · exact .inr h
    · split at h
      · exact List.mem_cons.mp h
      · rcases List.mem_cons.mp h with rfl | later
        · exact .inr List.mem_cons_self
        · exact (ih later).imp_right (List.mem_cons_of_mem _)

/-- Filing keeps the parts in the order of their numbers. -/
theorem pairwise_file (ascending : parts.Pairwise fun a b => a.1 < b.1) :
    (Reassembly.file seq payload parts).Pairwise fun a b => a.1 < b.1 := by
  induction parts with
  | nil => exact List.pairwise_singleton _ _
  | cons first rest ih =>
    obtain ⟨k, p⟩ := first
    obtain ⟨head, tail⟩ := List.pairwise_cons.mp ascending
    rw [Reassembly.file]
    split
    · exact ascending
    · split
      · next lt =>
        refine List.pairwise_cons.mpr ⟨fun e he => ?_, ascending⟩
        rcases List.mem_cons.mp he with rfl | later
        · exact lt
        · exact lt.trans (head e later)
      · next ne notLt =>
        refine List.pairwise_cons.mpr ⟨fun e he => ?_, ih tail⟩
        rcases mem_file he with rfl | old
        · exact lt_of_le_of_ne (not_lt.mp notLt) (Ne.symm ne)
        · exact head e old

/-- Looking a number up after filing: what it had, or else what was filed under it. -/
theorem lookup_file (ascending : parts.Pairwise fun a b => a.1 < b.1) :
    (Reassembly.file seq payload parts).lookup n
      = (parts.lookup n).or (if seq = n then some payload else none) := by
  induction parts with
  | nil =>
    rw [Reassembly.file, lookup_cons_ite, List.lookup_nil, Option.none_or]
    exact if_congr eq_comm rfl rfl
  | cons first rest ih =>
    obtain ⟨k, p⟩ := first
    obtain ⟨head, tail⟩ := List.pairwise_cons.mp ascending
    rw [Reassembly.file]
    split
    · next same =>
      subst same
      rw [lookup_cons_ite]
      by_cases h : n = seq
      · rw [if_pos h, Option.some_or]
      · rw [if_neg h, if_neg (Ne.symm h), Option.or_none]
    · split
      · next lt =>
        rw [lookup_cons_ite]
        by_cases h : n = seq
        · -- All parts have greater numbers, so there was none with this one.
          have absent : n ∉ ((k, p) :: rest).map Prod.fst := by
            rintro mem
            obtain ⟨e, he, rfl⟩ := List.mem_map.mp mem
            have less : seq < e.1 := by
              rcases List.mem_cons.mp he with rfl | later
              · exact lt
              · exact lt.trans (head e later)
            exact less.ne h.symm
          rw [if_pos h, if_pos h.symm, lookup_eq_none_of_not_mem absent, Option.none_or]
        · rw [if_neg h, if_neg (Ne.symm h), Option.or_none]
      · rw [lookup_cons_ite, lookup_cons_ite, ih tail]
        split <;> rfl

end

/-- What a collector holds after some messages: the first payload of every number that came. -/
structure Keeps (parts : List (Int × Bytes)) (msgs : List Reply) : Prop where
  /-- The numbers increase. -/
  ascending : parts.Pairwise fun a b => a.1 < b.1
  /-- A number has the payload that came first. -/
  lookup_eq : ∀ n, parts.lookup n = firstPayload? msgs n

namespace Keeps

variable {parts : List (Int × Bytes)} {msgs : List Reply} {m : Reply}

theorem nil : Keeps [] [] := ⟨List.Pairwise.nil, fun _ => rfl⟩

/-- A segment in range is filed. -/
theorem file (h : Keeps parts msgs) (counts : InRange m) :
    Keeps (Reassembly.file m.seq.toInt m.payload parts) (msgs ++ [m]) := by
  refine ⟨pairwise_file h.ascending, fun n => ?_⟩
  rw [lookup_file h.ascending, firstPayload?_concat, h.lookup_eq]
  simp only [counts, true_and]

/-- Any other segment is ignored. -/
theorem skip (h : Keeps parts msgs) (ignored : ¬ InRange m) : Keeps parts (msgs ++ [m]) := by
  refine ⟨h.ascending, fun n => ?_⟩
  rw [firstPayload?_concat, if_neg fun ⟨counts, _⟩ => ignored counts, Option.or_none, h.lookup_eq]

theorem pairwise_numbers (h : Keeps parts msgs) : (parts.map Prod.fst).Pairwise (· < ·) :=
  List.pairwise_map.mpr h.ascending

/-- The numbers held are those that came. -/
theorem mem_numbers_iff (h : Keeps parts msgs) {n : Int} :
    n ∈ parts.map Prod.fst ↔ Came msgs n := by
  rw [← isSome_firstPayload?, ← h.lookup_eq]
  constructor
  · intro mem
    obtain ⟨⟨n, payload⟩, there, rfl⟩ := List.mem_map.mp mem
    rw [lookup_eq_some_of_mem h.pairwise_numbers.nodup there]
    rfl
  · intro found
    obtain ⟨payload, found⟩ := Option.isSome_iff_exists.mp found
    exact List.mem_map.mpr ⟨(n, payload), mem_of_lookup found, rfl⟩

/-- What is held, put together. -/
theorem flatMap_eq (h : Keeps parts msgs) :
    parts.flatMap Prod.snd = gathered msgs (parts.map Prod.fst) := by
  rw [gathered, List.flatMap_map, List.flatMap_def, List.flatMap_def]
  refine congrArg List.flatten (List.map_congr_left ?_)
  rintro ⟨n, payload⟩ there
  dsimp only
  rw [← h.lookup_eq, lookup_eq_some_of_mem h.pairwise_numbers.nodup there, Option.getD_some]

/-- As many numbers as are held are the lowest ones if and only if none that came is greater, and if
and only if each of the lowest ones came. -/
theorem eq_upTo_iff (h : Keeps parts msgs) :
    (parts.map Prod.fst = upTo parts.length ↔ ∀ n : Int, Came msgs n → n ≤ parts.length) ∧
      (parts.map Prod.fst = upTo parts.length ↔
        ∀ n : Int, 1 ≤ n → n ≤ parts.length → Came msgs n) := by
  have length : (parts.map Prod.fst).length = (upTo parts.length).length := by
    rw [List.length_map, length_upTo]
  -- Of two lists of this length, both in order, one is part of the other only if they are equal.
  refine ⟨⟨fun eq n came => ?_, fun small => ?_⟩, fun eq n one le => ?_, fun all => ?_⟩
  · exact (mem_upTo.mp (eq ▸ h.mem_numbers_iff.mpr came)).2
  · refine eq_of_subset_of_length_le h.pairwise_numbers (pairwise_upTo _) (fun n hn => ?_) length.ge
    have came := h.mem_numbers_iff.mp hn
    have le := small n came
    obtain ⟨m, -, counts, rfl⟩ := came
    exact mem_upTo.mpr ⟨counts.1, le⟩
  · exact h.mem_numbers_iff.mp (eq ▸ mem_upTo.mpr ⟨one, le⟩)
  · refine (eq_of_subset_of_length_le (pairwise_upTo _) h.pairwise_numbers (fun n hn => ?_)
      length.le).symm
    obtain ⟨one, le⟩ := mem_upTo.mp hn
    exact h.mem_numbers_iff.mpr (all n one le)

end Keeps

/-! ## Calls -/

section

variable {r : Reassembly} {m : Reply}

/-- A call that does not complete the reply files a segment in range, and does nothing else. -/
theorem feed_of_waiting (waiting : (r.feed m).2.1 = false) :
    (r.feed m).1 = { r with
      parts := if InRange m then Reassembly.file m.seq.toInt m.payload r.parts else r.parts } := by
  rw [Reassembly.feed] at waiting ⊢
  split at waiting
  · cases waiting
  · next split =>
    rw [if_neg split]
    split at waiting
    · next out =>
      rw [if_pos out, if_neg (by rw [InRange]; omega)]
    · next counts =>
      dsimp only at waiting ⊢
      split at waiting
      · cases waiting
      · next partial_ =>
        rw [if_neg counts, if_neg partial_, if_pos (by rw [InRange]; omega)]

/-- A call that completes a reply that was split has filed as many segments as its own says there
are. -/
theorem feed_of_complete (many : 1 < m.numSeq.toInt) (sound : m.error = "")
    (done : (r.feed m).2.1 = true) :
    InRange m ∧
      ((Reassembly.file m.seq.toInt m.payload r.parts).length : Int) = m.numSeq.toInt ∧
      (r.feed m).2.2 = if r.awaited then
        some ⟨m.id, 1, 1, (Reassembly.file m.seq.toInt m.payload r.parts).flatMap Prod.snd, ""⟩
        else none := by
  have notAlone : ¬ (m.numSeq.toInt ≤ 1 ∨ m.isError = true) := by
    rw [isError_eq_false sound]
    simp only [Bool.false_eq_true, or_false]
    omega
  rw [Reassembly.feed, if_neg notAlone] at done ⊢
  split at done
  · cases done
  · next counts =>
    dsimp only at done ⊢
    split at done
    · next full =>
      refine ⟨by rw [InRange]; omega, full, ?_⟩
      rw [if_neg counts, if_pos full]
      rfl
    · cases done

end

/-- As long as no reply was complete, the collector holds the first payload of every number that
came, and someone waits for it. -/
theorem keeps_feedAll {msgs : List Reply}
    (waiting : ∀ result ∈ (Reassembly.empty.feedAll msgs).2, result.1 = false) :
    Keeps (Reassembly.empty.feedAll msgs).1.parts msgs ∧
      (Reassembly.empty.feedAll msgs).1.awaited = true := by
  induction msgs using List.reverseRecOn with
  | nil => exact ⟨.nil, rfl⟩
  | append_singleton before m ih =>
    rw [Reassembly.feedAll_append, Reassembly.feedAll_singleton] at waiting ⊢
    obtain ⟨earlier, last⟩ := List.forall_mem_append.mp waiting
    obtain ⟨keeps, awaited⟩ := ih earlier
    dsimp only at last ⊢
    rw [feed_of_waiting (last _ List.mem_cons_self)]
    refine ⟨?_, awaited⟩
    dsimp only
    split
    · next counts => exact keeps.file counts
    · next ignored => exact keeps.skip ignored

/-- **A reply is complete by count.** Feed a fresh collector any messages, none of which completes the
reply, and then one that does and that is a segment of several. The reply is the first payloads of the
numbers that came, in increasing order, and these are as many as this segment says there are. They
are the lowest ones, as they should be, if and only if no segment that came has a greater number than
this one says there are. -/
theorem completes_from_lowest_iff (before : List Reply) (m : Reply)
    (waiting : ∀ result ∈ (Reassembly.empty.feedAll before).2, result.1 = false)
    (many : 1 < m.numSeq.toInt) (sound : m.error = "")
    (done : ((Reassembly.empty.feedAll before).1.feed m).2.1 = true) :
    let msgs := before ++ [m]
    let reply := ((Reassembly.empty.feedAll before).1.feed m).2.2
    (∃ numbers : List Int, numbers.Pairwise (· < ·) ∧ (∀ n, n ∈ numbers ↔ Came msgs n) ∧
      (numbers.length : Int) = m.numSeq.toInt ∧
      reply = some ⟨m.id, 1, 1, gathered msgs numbers, ""⟩) ∧
    ((∀ n, 1 ≤ n → n ≤ m.numSeq.toInt → Came msgs n) ∧
        reply = some ⟨m.id, 1, 1, gathered msgs (upTo m.numSeq.toInt.toNat), ""⟩ ↔
      ∀ s ∈ msgs, InRange s → s.seq.toInt ≤ m.numSeq.toInt) := by
  intro msgs reply
  obtain ⟨held, awaited⟩ := keeps_feedAll waiting
  obtain ⟨counts, full, handed⟩ := feed_of_complete many sound done
  have keeps : Keeps _ msgs := held.file counts
  have reply_eq := handed.trans (if_pos awaited)
  generalize Reassembly.file m.seq.toInt m.payload _ = parts at keeps full reply_eq
  rw [keeps.flatMap_eq] at reply_eq
  obtain ⟨lowest_iff_le, lowest_iff_all⟩ := keeps.eq_upTo_iff
  have bounded_iff : (∀ s ∈ msgs, InRange s → s.seq.toInt ≤ m.numSeq.toInt)
      ↔ ∀ n, Came msgs n → n ≤ parts.length := by
    rw [full]
    constructor
    · rintro small _ ⟨s, mem, counts, rfl⟩
      exact small s mem counts
    · intro small s mem counts
      exact small _ ⟨s, mem, counts, rfl⟩
  refine ⟨⟨parts.map Prod.fst, keeps.pairwise_numbers, fun n => keeps.mem_numbers_iff, ?_, reply_eq⟩,
    ?_⟩
  · rw [List.length_map, full]
  · rw [bounded_iff, ← lowest_iff_le, ← full, Int.toNat_natCast]
    constructor
    · rintro ⟨all, -⟩
      exact lowest_iff_all.mpr all
    · intro lowest
      exact ⟨lowest_iff_all.mp lowest, lowest ▸ reply_eq⟩

/-- Three segments, one of which comes again with another payload, among one that is ignored. -/
theorem completes_from_lowest_iff_sample :
    let before : List Reply :=
      [⟨7, 2, 3, [20], ""⟩, ⟨7, 3, 2, [99], ""⟩, ⟨7, 1, 3, [10], ""⟩, ⟨7, 2, 3, [21], ""⟩]
    let m : Reply := ⟨7, 3, 3, [30], ""⟩
    (∀ result ∈ (Reassembly.empty.feedAll before).2, result.1 = false) ∧ 1 < m.numSeq.toInt ∧
      m.error = "" ∧ ((Reassembly.empty.feedAll before).1.feed m).2.1 = true ∧
      (∀ n, 1 ≤ n → n ≤ 3 → Came (before ++ [m]) n) ∧
      ((Reassembly.empty.feedAll before).1.feed m).2.2 = some ⟨7, 1, 1, [10, 20, 30], ""⟩ := by
  intro before m
  have waiting : ∀ result ∈ (Reassembly.empty.feedAll before).2, result.1 = false := by decide
  have done : ((Reassembly.empty.feedAll before).1.feed m).2.1 = true := by decide
  have lowest := (completes_from_lowest_iff before m waiting (by decide) rfl done).2.mpr (by decide)
  exact ⟨waiting, by decide, rfl, done, lowest⟩

/-- A segment of ten and a segment of two are taken for the two segments of a reply, although nobody
sent the second one. -/
theorem foreign_segment_completes :
    let before : List Reply := [⟨1, 7, 10, [98], ""⟩]
    let m : Reply := ⟨1, 1, 2, [97], ""⟩
    (∀ result ∈ (Reassembly.empty.feedAll before).2, result.1 = false) ∧
      ((Reassembly.empty.feedAll before).1.feed m).2 = (true, some ⟨1, 1, 1, [97, 98], ""⟩) ∧
      ∀ s ∈ before ++ [m], s.seq.toInt ≠ 2 := by
  decide

end MarketStream.Bus
