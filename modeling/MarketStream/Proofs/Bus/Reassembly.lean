import Mathlib.Data.List.Induction
import MarketStream.Proofs.Bus.Splitting

/-!
# Putting segments together

The segments of a reply may arrive in any order and any number of times, among segments whose
numbers are out of range. The collector holds, at every instant, exactly the distinct segments that
have arrived, in the order of their numbers. So it completes the reply when the last of them comes,
with the payload that was split, and hands it on once.

* `holding` — a collector with some of the segments; `feed_segment` — one more segment;
* `Covers`, `IsStray` — when every segment has come, and what is ignored;
* `feedAll_split` — splitting and putting together again is the identity under any delivery.
-/

namespace MarketStream.Bus

/-! ## What the collector holds -/

/-- A segment as it is filed. -/
def entry (s : Reply) : Int × Bytes := (s.seq.toInt, s.payload)

/-- The segments of a list that satisfy `p`, as they are filed. -/
def filed (segments : List Reply) (p : Reply → Prop) [DecidablePred p] : List (Int × Bytes) :=
  (segments.filter fun s => p s).map entry

/-- Numbers increase along the segments. -/
def Numbered (segments : List Reply) : Prop :=
  segments.Pairwise fun s t => s.seq.toInt < t.seq.toInt

theorem file_of_lt {seq : Int} {payload : Bytes} {parts : List (Int × Bytes)}
    (h : ∀ e ∈ parts, seq < e.1) : Reassembly.file seq payload parts = (seq, payload) :: parts := by
  cases parts with
  | nil => rfl
  | cons e rest =>
    have := h e (by simp)
    rw [Reassembly.file, if_neg (by omega), if_pos this]

theorem file_cons_of_lt {seq : Int} {payload : Bytes} {e : Int × Bytes}
    {parts : List (Int × Bytes)} (h : e.1 < seq) :
    Reassembly.file seq payload (e :: parts) = e :: Reassembly.file seq payload parts := by
  rw [Reassembly.file, if_neg (by omega), if_neg (by omega)]

theorem file_cons_self {seq : Int} {payload : Bytes} {e : Int × Bytes}
    {parts : List (Int × Bytes)} (h : seq = e.1) :
    Reassembly.file seq payload (e :: parts) = e :: parts := by
  rw [Reassembly.file, if_pos h]

section

variable {s t : Reply} {rest segments : List Reply} {p q : Reply → Prop} [DecidablePred p]
  [DecidablePred q]

theorem filed_cons_of_pos (h : p t) : filed (t :: rest) p = entry t :: filed rest p := by
  rw [filed, List.filter_cons_of_pos (by simpa using h)]
  rfl

theorem filed_cons_of_neg (h : ¬ p t) : filed (t :: rest) p = filed rest p := by
  rw [filed, List.filter_cons_of_neg (by simpa using h)]
  rfl

theorem filed_congr (h : ∀ s ∈ segments, p s ↔ q s) : filed segments p = filed segments q :=
  congrArg (List.map entry) (List.filter_congr fun s hs => by simp [h s hs])

theorem lt_of_mem_filed {e : Int × Bytes} (numbered : Numbered (t :: rest))
    (h : e ∈ filed rest p) : t.seq.toInt < e.1 := by
  obtain ⟨u, hu, rfl⟩ := List.mem_map.mp h
  exact List.rel_of_pairwise_cons numbered (List.mem_filter.mp hu).1

/-- Filing a segment adds it to those held, if it is not among them. -/
theorem file_filed (numbered : Numbered segments) (mem : s ∈ segments) :
    Reassembly.file s.seq.toInt s.payload (filed segments p)
      = filed segments fun t => p t ∨ t = s := by
  induction segments with
  | nil => cases mem
  | cons t rest ih =>
    obtain ⟨first, rest_numbered⟩ := List.pairwise_cons.mp numbered
    rcases List.mem_cons.mp mem with rfl | mem
    · have others : filed rest (fun t => p t ∨ t = s) = filed rest p := by
        refine filed_congr fun u hu => or_iff_left fun eq => ?_
        have := first u hu
        rw [eq] at this
        omega
      rw [filed_cons_of_pos (p := fun t => p t ∨ t = s) (.inr rfl), others]
      by_cases h : p s
      · rw [filed_cons_of_pos h]
        exact file_cons_self rfl
      · rw [filed_cons_of_neg h]
        exact file_of_lt fun e he => lt_of_mem_filed numbered he
    · have lt := first s mem
      have ne : t ≠ s := fun eq => by
        rw [eq] at lt
        omega
      by_cases h : p t
      · rw [filed_cons_of_pos h, file_cons_of_lt lt, ih rest_numbered mem,
          filed_cons_of_pos (p := fun t => p t ∨ t = s) (.inl h)]
      · rw [filed_cons_of_neg h, ih rest_numbered mem,
          filed_cons_of_neg (p := fun t => p t ∨ t = s) (not_or.mpr ⟨h, ne⟩)]

/-- As many segments are held as there are exactly when all of them are. -/
theorem length_filed_eq_iff :
    (filed segments p).length = segments.length ↔ ∀ s ∈ segments, p s := by
  rw [filed, List.length_map, List.length_filter_eq_length_iff]
  simp

end

/-! ## Feeding segments -/

section

variable {id : Int64} {payload : Bytes} {size : Nat} {s : Reply}

/-- The whole reply. -/
def whole (id : Int64) (payload : Bytes) : Reply := ⟨id, 1, 1, payload, ""⟩

/-- A collector that holds the segments of a list that satisfy `p`, and that someone waits for. -/
def holding (segments : List Reply) (p : Reply → Prop) [DecidablePred p] : Reassembly :=
  ⟨filed segments p, true⟩

theorem holding_of_none {segments : List Reply} {p : Reply → Prop} [DecidablePred p]
    (h : ∀ s ∈ segments, ¬ p s) : holding segments p = .empty := by
  rw [holding, filed, List.filter_eq_nil_iff.mpr (by simpa using h)]
  rfl

theorem isError_eq_false {m : Reply} (h : m.error = "") : m.isError = false := by
  simp [Reply.isError, h]

theorem Segment.not_whole {count : Nat} (h : Segment id count s) (many : 1 < count) :
    ¬ (s.numSeq.toInt ≤ 1 ∨ s.isError = true) := by
  rw [h.numSeq_eq, isError_eq_false h.error_eq]
  simp only [Bool.false_eq_true, or_false]
  omega

theorem Segment.in_range {count : Nat} (h : Segment id count s) :
    ¬ (s.seq.toInt < 1 ∨ s.numSeq.toInt < s.seq.toInt) := by
  have := h.one_le
  have := h.le_count
  rw [h.numSeq_eq]
  omega

/-- A payload in one segment is its own reply. -/
theorem eq_whole_of_single (small : payload.length < 0x8000000000000000)
    (single : (split id payload size).length = 1) (mem : s ∈ split id payload size) :
    s = whole id payload := by
  obtain ⟨t, eq⟩ := List.length_eq_one_iff.mp single
  have payload_eq := flatMap_payload_split id payload size
  have segment := segment_of_mem_split small mem
  rw [eq] at mem payload_eq
  obtain rfl := List.mem_singleton.mp mem
  rw [single] at segment
  have seq_eq : s.seq = 1 := Int64.toInt_inj.mp (by
    have := segment.one_le
    have := segment.le_count
    have one : (1 : Int64).toInt = 1 := rfl
    omega)
  have numSeq_eq : s.numSeq = 1 := Int64.toInt_inj.mp segment.numSeq_eq
  rw [List.flatMap_singleton] at payload_eq
  cases s
  exact Reply.mk.injEq .. ▸ ⟨segment.id_eq, seq_eq, numSeq_eq, payload_eq, segment.error_eq⟩

/-- A segment that is not the last one missing is filed. -/
theorem feed_segment_of_missing (small : payload.length < 0x8000000000000000)
    (mem : s ∈ split id payload size) {p : Reply → Prop} [DecidablePred p]
    (missing : ¬ ∀ t ∈ split id payload size, p t ∨ t = s) :
    (holding (split id payload size) p).feed s
      = (holding (split id payload size) fun t => p t ∨ t = s, false, none) := by
  have segment := segment_of_mem_split small mem
  -- The only segment there is would be the last one missing.
  have count : (split id payload size).length ≠ 1 := by
    intro single
    obtain ⟨t, eq⟩ := List.length_eq_one_iff.mp single
    refine missing fun u hu => .inr ?_
    rw [eq] at mem hu
    rw [List.mem_singleton.mp mem, List.mem_singleton.mp hu]
  have pos := length_split_pos id payload size
  have notFull : ¬ ((filed (split id payload size) fun t => p t ∨ t = s).length : Int)
      = s.numSeq.toInt := by
    rw [segment.numSeq_eq, Int.natCast_inj, length_filed_eq_iff]
    exact missing
  rw [Reassembly.feed, if_neg (segment.not_whole (by omega)), if_neg segment.in_range, holding,
    file_filed (pairwise_split small) mem]
  dsimp only
  rw [if_neg notFull]
  rfl

/-- The last segment that was missing completes the reply. -/
theorem feed_segment_of_last (small : payload.length < 0x8000000000000000)
    (mem : s ∈ split id payload size) {p : Reply → Prop} [DecidablePred p]
    (last : ∀ t ∈ split id payload size, p t ∨ t = s) :
    ((holding (split id payload size) p).feed s).1.awaited = false ∧
      ((holding (split id payload size) p).feed s).2 = (true, some (whole id payload)) := by
  have segment := segment_of_mem_split small mem
  by_cases single : (split id payload size).length = 1
  · -- The only segment there is passes as it came, and is never filed.
    have eq := eq_whole_of_single small single mem
    have alone : s.numSeq.toInt ≤ 1 ∨ s.isError = true := .inl (by rw [eq]; exact Int.le_refl 1)
    rw [Reassembly.feed, if_pos alone, ← eq]
    exact ⟨rfl, rfl⟩
  · have pos := length_split_pos id payload size
    have full : ((filed (split id payload size) fun t => p t ∨ t = s).length : Int)
        = s.numSeq.toInt := by
      rw [segment.numSeq_eq, Int.natCast_inj, length_filed_eq_iff]
      exact last
    have bytes : (filed (split id payload size) fun t => p t ∨ t = s).flatMap Prod.snd
        = payload := by
      rw [filed, List.filter_eq_self.mpr (by simpa using last), List.flatMap_map]
      exact flatMap_payload_split id payload size
    rw [Reassembly.feed, if_neg (segment.not_whole (by omega)), if_neg segment.in_range, holding,
      file_filed (pairwise_split small) mem]
    dsimp only
    rw [if_pos full, bytes, segment.id_eq]
    exact ⟨rfl, rfl⟩

/-- A segment of some split reply whose number is out of range. -/
def IsStray (m : Reply) : Prop :=
  1 < m.numSeq.toInt ∧ (m.seq.toInt < 1 ∨ m.numSeq.toInt < m.seq.toInt) ∧ m.error = ""

instance (m : Reply) : Decidable (IsStray m) := inferInstanceAs (Decidable (_ ∧ _))

theorem feed_stray {m : Reply} (h : IsStray m) (r : Reassembly) : r.feed m = (r, false, none) := by
  obtain ⟨many, out, error⟩ := h
  have notWhole : ¬ (m.numSeq.toInt ≤ 1 ∨ m.isError = true) := by
    rw [isError_eq_false error]
    simp only [Bool.false_eq_true, or_false]
    omega
  rw [Reassembly.feed, if_neg notWhole, if_pos out]

/-- Once the reply was handed on, nothing is. -/
theorem feed_of_not_awaited {r : Reassembly} (h : r.awaited = false) (m : Reply) :
    (r.feed m).1.awaited = false ∧ (r.feed m).2.2 = none := by
  rw [Reassembly.feed]
  split
  · simp [Reassembly.complete, h]
  · split
    · exact ⟨h, rfl⟩
    · dsimp only
      split
      · simp [Reassembly.complete, h]
      · exact ⟨h, rfl⟩

end

/-! ## Whole deliveries -/

namespace Reassembly

/-- Takes in messages one after another, and gives what each call returns: whether the reply is
complete, and what is handed to the one who waits. -/
def feedAll (r : Reassembly) : List Reply → Reassembly × List (Bool × Option Reply)
  | [] => (r, [])
  | m :: rest => (((r.feed m).1.feedAll rest).1, (r.feed m).2 :: ((r.feed m).1.feedAll rest).2)

theorem feedAll_append (r : Reassembly) (before later : List Reply) :
    r.feedAll (before ++ later) =
      (((r.feedAll before).1.feedAll later).1,
        (r.feedAll before).2 ++ ((r.feedAll before).1.feedAll later).2) := by
  induction before generalizing r with
  | nil => rfl
  | cons m rest ih => simp [feedAll, ih]

theorem feedAll_singleton (r : Reassembly) (m : Reply) :
    r.feedAll [m] = ((r.feed m).1, [(r.feed m).2]) := rfl

/-- What a call returns depends on the messages before it. -/
theorem getElem?_feedAll (r : Reassembly) {msgs : List Reply} {i : Nat} (hi : i < msgs.length) :
    (r.feedAll msgs).2[i]? = some ((r.feedAll (msgs.take i)).1.feed msgs[i]).2 := by
  induction msgs generalizing r i with
  | nil => exact absurd hi (Nat.not_lt_zero i)
  | cons m rest ih =>
    cases i with
    | zero => rfl
    | succ i => exact ih (r.feed m).1 (Nat.lt_of_succ_lt_succ hi)

/-- A call returns the same whatever follows. -/
theorem getElem?_feedAll_take (r : Reassembly) (msgs : List Reply) {i n : Nat} (lt : i < n) :
    (r.feedAll (msgs.take n)).2[i]? = (r.feedAll msgs).2[i]? := by
  induction msgs generalizing r i n with
  | nil => rw [List.take_nil]
  | cons m rest ih =>
    cases n with
    | zero => exact absurd lt (Nat.not_lt_zero i)
    | succ n =>
      cases i with
      | zero => rfl
      | succ i => exact ih (r.feed m).1 (Nat.lt_of_succ_lt_succ lt)

/-- What the one who waits receives. -/
def handed (r : Reassembly) (msgs : List Reply) : List Reply :=
  (r.feedAll msgs).2.filterMap Prod.snd

theorem handed_of_not_awaited {r : Reassembly} (h : r.awaited = false) (msgs : List Reply) :
    r.handed msgs = [] := by
  induction msgs generalizing r with
  | nil => rfl
  | cons m rest ih =>
    obtain ⟨awaited, nothing⟩ := feed_of_not_awaited h m
    rw [handed, feedAll, List.filterMap_cons_none nothing]
    exact ih awaited

theorem handed_append (r : Reassembly) (before later : List Reply) :
    r.handed (before ++ later)
      = r.handed before ++ (r.feedAll before).1.handed later := by
  rw [handed, feedAll_append, List.filterMap_append]
  rfl

end Reassembly

/-- Every segment is among the messages. -/
def Covers (msgs segments : List Reply) : Prop := ∀ s ∈ segments, s ∈ msgs

instance (msgs segments : List Reply) : Decidable (Covers msgs segments) :=
  inferInstanceAs (Decidable (∀ s ∈ segments, s ∈ msgs))

theorem Covers.mono {msgs msgs' segments : List Reply} (h : Covers msgs segments)
    (sub : msgs ⊆ msgs') : Covers msgs' segments := fun s hs => sub (h s hs)

section

variable {id : Int64} {payload : Bytes} {size : Nat} {msgs : List Reply}

theorem not_covers_nil : ¬ Covers [] (split id payload size) := by
  intro h
  obtain ⟨s, hs⟩ := exists_mem_split id payload size
  cases h s hs

/-- If all segments came, one message was the last that was missing. -/
theorem exists_last_of_covers (h : Covers msgs (split id payload size)) :
    ∃ before last rest, msgs = before ++ last :: rest ∧ ¬ Covers before (split id payload size) ∧
      Covers (before ++ [last]) (split id payload size) := by
  induction msgs using List.reverseRecOn with
  | nil => exact absurd h not_covers_nil
  | append_singleton before m ih =>
    by_cases earlier : Covers before (split id payload size)
    · obtain ⟨b, l, r, rfl, missing, all⟩ := ih earlier
      exact ⟨b, l, r ++ [m], by simp, missing, all⟩
    · exact ⟨before, m, [], rfl, earlier, h⟩

/-- **Waiting.** As long as a segment is missing, the collector holds the segments that came and
completes nothing. -/
theorem feedAll_of_not_covers (small : payload.length < 0x8000000000000000)
    (known : ∀ m ∈ msgs, m ∈ split id payload size ∨ IsStray m)
    (missing : ¬ Covers msgs (split id payload size)) :
    Reassembly.empty.feedAll msgs =
      (holding (split id payload size) (· ∈ msgs), List.replicate msgs.length (false, none)) := by
  induction msgs using List.reverseRecOn with
  | nil =>
    rw [holding_of_none fun _ _ h => by cases h]
    rfl
  | append_singleton before m ih =>
    have ih := ih (fun m' h => known m' (by simp [h]))
      (mt (fun h => h.mono (List.subset_append_left before [m])) missing)
    rw [Reassembly.feedAll_append, ih, Reassembly.feedAll_singleton, List.length_append,
      List.replicate_add]
    have held : holding (split id payload size) (· ∈ before ++ [m])
        = holding (split id payload size) fun t => t ∈ before ∨ t = m :=
      congrArg (Reassembly.mk · true) (filed_congr fun t _ => by simp)
    -- A segment is filed; a stray is none of the segments, so what is held stays the same.
    rcases known m (by simp) with segment | stray
    · have stillMissing : ¬ ∀ t ∈ split id payload size, t ∈ before ∨ t = m := fun all =>
        missing fun t ht => by simpa using all t ht
      rw [feed_segment_of_missing small segment stillMissing, held]
      rfl
    · have unchanged : holding (split id payload size) (fun t => t ∈ before ∨ t = m)
          = holding (split id payload size) (· ∈ before) := by
        refine congrArg (Reassembly.mk · true) (filed_congr fun t ht => or_iff_left fun eq => ?_)
        have segment := segment_of_mem_split small ht
        rw [eq] at segment
        exact segment.in_range stray.2.1
      rw [feed_stray stray, held, unchanged]
      rfl

/-- **Completing.** The message that brings the last missing segment completes the reply. -/
theorem feed_last (small : payload.length < 0x8000000000000000) {last : Reply}
    (known : ∀ m ∈ msgs ++ [last], m ∈ split id payload size ∨ IsStray m)
    (missing : ¬ Covers msgs (split id payload size))
    (all : Covers (msgs ++ [last]) (split id payload size)) :
    ((Reassembly.empty.feedAll msgs).1.feed last).1.awaited = false ∧
      ((Reassembly.empty.feedAll msgs).1.feed last).2 = (true, some (whole id payload)) := by
  have came : ∀ t ∈ split id payload size, t ∈ msgs ∨ t = last := fun t ht => by
    simpa using all t ht
  obtain ⟨t, ht, new⟩ : ∃ t ∈ split id payload size, t ∉ msgs := by
    simpa [Covers] using missing
  have eq : t = last := (came t ht).resolve_left new
  rw [feedAll_of_not_covers small (fun m h => known m (by simp [h])) missing]
  exact feed_segment_of_last small (eq ▸ ht) came

end

/-- **Splitting and putting together is the identity under any delivery.** Feed a fresh collector
the segments of a payload in any order and any number of times, among strays. Every call before the
one that brings the last missing segment says that the reply is not complete; that one says it is
and hands on the whole payload. Without it nothing is handed on; after it, whatever is fed, nothing
more is. The length of a payload is that of some memory, so it fits a signed 64-bit number. -/
theorem feedAll_split (id : Int64) (payload : Bytes) (size : Nat) (msgs : List Reply)
    (small : payload.length < 0x8000000000000000)
    (known : ∀ m ∈ msgs, m ∈ split id payload size ∨ IsStray m) :
    (∀ i < msgs.length,
      (¬ Covers (msgs.take (i + 1)) (split id payload size) →
        (Reassembly.empty.feedAll msgs).2[i]? = some (false, none)) ∧
      (¬ Covers (msgs.take i) (split id payload size) →
        Covers (msgs.take (i + 1)) (split id payload size) →
          (Reassembly.empty.feedAll msgs).2[i]? = some (true, some ⟨id, 1, 1, payload, ""⟩))) ∧
    (¬ Covers msgs (split id payload size) → Reassembly.empty.handed msgs = []) ∧
    (Covers msgs (split id payload size) → ∀ later,
      Reassembly.empty.handed (msgs ++ later) = [⟨id, 1, 1, payload, ""⟩]) := by
  refine ⟨fun i hi => ⟨fun missing => ?_, fun missing all => ?_⟩, fun missing => ?_,
    fun all later => ?_⟩
  · have calls := feedAll_of_not_covers small
      (fun m h => known m (List.mem_of_mem_take h)) missing
    rw [← Reassembly.getElem?_feedAll_take _ msgs (Nat.lt_succ_self i), calls,
      List.getElem?_replicate, if_pos]
    rw [List.length_take]
    omega
  · rw [List.take_succ_eq_append_getElem hi] at all
    have known' : ∀ m ∈ msgs.take i ++ [msgs[i]], m ∈ split id payload size ∨ IsStray m := by
      intro m h
      rw [← List.take_succ_eq_append_getElem hi] at h
      exact known m (List.mem_of_mem_take h)
    rw [Reassembly.getElem?_feedAll _ hi, (feed_last small known' missing all).2]
    rfl
  · rw [Reassembly.handed, feedAll_of_not_covers small known missing]
    simp
  · obtain ⟨before, last, rest, rfl, missing, all⟩ := exists_last_of_covers all
    have known' : ∀ m ∈ before ++ [last], m ∈ split id payload size ∨ IsStray m :=
      fun m h => known m (by simp at h ⊢; tauto)
    obtain ⟨done, result⟩ := feed_last small known' missing all
    have quiet : Reassembly.empty.handed before = [] := by
      rw [Reassembly.handed,
        feedAll_of_not_covers small (fun m h => known' m (by simp [h])) missing]
      simp
    rw [List.append_assoc, List.cons_append, ← List.singleton_append, Reassembly.handed_append,
      quiet, List.nil_append, Reassembly.handed_append, Reassembly.feedAll_singleton,
      Reassembly.handed_of_not_awaited done, List.append_nil, Reassembly.handed,
      Reassembly.feedAll_singleton, result]
    rfl

/-- Five bytes in three segments, with a stray and a segment that comes twice. -/
theorem feedAll_split_sample :
    ([1, 2, 3, 4, 5] : Bytes).length < 0x8000000000000000 ∧
      Reassembly.empty.handed [⟨7, 3, 3, [5], ""⟩, ⟨7, 4, 3, [9], ""⟩, ⟨7, 1, 3, [1, 2], ""⟩,
        ⟨7, 1, 3, [1, 2], ""⟩, ⟨7, 2, 3, [3, 4], ""⟩, ⟨7, 0, 0, [8], "late"⟩]
        = [⟨7, 1, 1, [1, 2, 3, 4, 5], ""⟩] :=
  have small : ([1, 2, 3, 4, 5] : Bytes).length < 0x8000000000000000 := by decide
  have result := feedAll_split 7 [1, 2, 3, 4, 5] 2 [⟨7, 3, 3, [5], ""⟩, ⟨7, 4, 3, [9], ""⟩,
    ⟨7, 1, 3, [1, 2], ""⟩, ⟨7, 1, 3, [1, 2], ""⟩, ⟨7, 2, 3, [3, 4], ""⟩] small (by decide)
  ⟨small, result.2.2 (by decide) [⟨7, 0, 0, [8], "late"⟩]⟩

end MarketStream.Bus
