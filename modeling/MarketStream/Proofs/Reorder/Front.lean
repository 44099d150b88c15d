import Mathlib.Data.List.Nodup
import Mathlib.Data.List.Perm.Subperm
import MarketStream.Proofs.Reorder.Runs

/-!
# The front of a stream

The front of the frames seen so far is the number up to which none is missing. A sequencer that
gets no frame too far from the front stands at it: it has delivered every number up to the front
and holds back what lies beyond.

* `front`, `le_front_iff` — the greatest number up to which nothing is missing;
* `copies` — the frames of a number that are delivered;
* `drain_climbs` — what is delivered once a gap closes, and where the sequence stands then.
-/

namespace MarketStream.Reorder

open Sequencer

/-- The frame has the number. -/
def numbered (n : Nat) (f : Frame) : Bool := decide (f.seq.toInt = n)

/-- The frame lies beyond a number. -/
def isBeyond (k : Nat) (f : Frame) : Bool := decide ((k : Int) < f.seq.toInt)

/-- Some frame has the number. -/
def Seen (frames : List Frame) (n : Nat) : Prop := ∃ f ∈ frames, f.seq.toInt = n

/-- The number up to which no frame is missing. -/
def front (frames : List Frame) : Nat :=
  ((List.range' 1 frames.length).takeWhile fun n => frames.any (numbered n)).length

@[simp] theorem numbered_iff {n : Nat} {f : Frame} : numbered n f = true ↔ f.seq.toInt = n := by
  simp [numbered]

@[simp] theorem isBeyond_iff {k : Nat} {f : Frame} :
    isBeyond k f = true ↔ (k : Int) < f.seq.toInt := by
  simp [isBeyond]

theorem not_isBeyond {k : Nat} {f : Frame} (le : f.seq.toInt ≤ k) : ¬ isBeyond k f = true := by
  rw [isBeyond_iff]
  omega

/-- Nothing lies beyond the greatest number. -/
theorem filter_isBeyond_of_top {k : Nat} (top : (k : Int) = Int64.maxValue.toInt)
    (frames : List Frame) : frames.filter (isBeyond k) = [] :=
  List.filter_eq_nil_iff.mpr fun f _ => not_isBeyond (top ▸ seq_le f)

theorem any_numbered_iff {frames : List Frame} {n : Nat} :
    frames.any (numbered n) = true ↔ Seen frames n := by
  simp [Seen]

theorem seen_snoc {frames : List Frame} {f : Frame} {n : Nat} :
    Seen (frames ++ [f]) n ↔ Seen frames n ∨ f.seq.toInt = n := by
  simp [Seen, or_and_right, exists_or]

/-- Distinct numbers that were all seen came with as many frames. -/
theorem length_le_of_seen {frames : List Frame} {ns : List Nat} (nodup : ns.Nodup)
    (seen : ∀ n ∈ ns, Seen frames n) : ns.length ≤ frames.length := by
  have nodup' : (ns.map Int.ofNat).Nodup := nodup.map fun a b h => Int.ofNat.inj h
  have sub : ns.map Int.ofNat ⊆ frames.map fun f => f.seq.toInt := by
    intro x hx
    obtain ⟨n, hn, rfl⟩ := List.mem_map.mp hx
    obtain ⟨f, hf, eq⟩ := seen n hn
    exact List.mem_map.mpr ⟨f, hf, eq⟩
  have := (nodup'.subperm sub).length_le
  rwa [List.length_map, List.length_map] at this

/-- The front is the greatest number up to which nothing is missing. -/
theorem le_front_iff {frames : List Frame} {k : Nat} :
    k ≤ front frames ↔ ∀ n, 1 ≤ n → n ≤ k → Seen frames n := by
  constructor
  · intro le n pos hn
    have at_n : n - 1 < front frames := by omega
    have seen := List.all_eq_true.mp (List.all_takeWhile (p := fun n => frames.any (numbered n)))
      _ (List.getElem_mem at_n)
    have eq : ((List.range' 1 frames.length).takeWhile fun n => frames.any (numbered n))[n - 1]
        = n := by
      rw [(List.takeWhile_prefix _).getElem at_n, List.getElem_range']
      omega
    rw [eq] at seen
    exact any_numbered_iff.mp seen
  · intro seen
    -- That many distinct numbers came with as many frames, so the front looks that far.
    have short : k ≤ frames.length := by
      have := length_le_of_seen (List.nodup_range' (s := 1) (n := k)) fun n hn => by
        obtain ⟨h₁, h₂⟩ := List.mem_range'_1.mp hn
        exact seen n h₁ (by omega)
      simpa using this
    have split : List.range' 1 frames.length
        = List.range' 1 k ++ List.range' (1 + k) (frames.length - k) := by
      rw [List.range'_append_1, Nat.add_sub_cancel' short]
    have passed : ∀ n ∈ List.range' 1 k, frames.any (numbered n) = true := fun n hn => by
      obtain ⟨h₁, h₂⟩ := List.mem_range'_1.mp hn
      exact any_numbered_iff.mpr (seen n h₁ (by omega))
    rw [front, split, List.takeWhile_append_of_pos passed, List.length_append, List.length_range']
    exact Nat.le_add_right _ _

theorem front_eq {frames : List Frame} {k : Nat} (seen : ∀ n, 1 ≤ n → n ≤ k → Seen frames n)
    (missing : ¬ Seen frames (k + 1)) : front frames = k := by
  refine Nat.le_antisymm ?_ (le_front_iff.mpr seen)
  by_contra lt
  exact missing (le_front_iff.mp (Nat.lt_of_not_le lt) (k + 1) (by omega) (Nat.le_refl _))

theorem seen_of_le_front {frames : List Frame} {n : Nat} (pos : 1 ≤ n) (le : n ≤ front frames) :
    Seen frames n := le_front_iff.mp (Nat.le_refl _) n pos le

theorem not_seen_front_succ (frames : List Frame) : ¬ Seen frames (front frames + 1) := by
  intro seen
  have : front frames + 1 ≤ front frames := le_front_iff.mpr fun n pos le => by
    rcases Nat.lt_or_ge (front frames) n with lt | ge
    · obtain rfl : n = front frames + 1 := by omega
      exact seen
    · exact seen_of_le_front pos ge
  omega

/-- The front is a number that a frame can have. -/
theorem front_le (frames : List Frame) : (front frames : Int) ≤ Int64.maxValue.toInt := by
  rcases Nat.eq_zero_or_pos (front frames) with zero | pos
  · rw [zero]
    decide
  · obtain ⟨f, -, eq⟩ := seen_of_le_front pos (Nat.le_refl _)
    rw [← eq]
    exact seq_le f

/-- The front never goes back. -/
theorem front_le_snoc (frames : List Frame) (f : Frame) :
    front frames ≤ front (frames ++ [f]) :=
  le_front_iff.mpr fun _ pos le => seen_snoc.mpr (.inl (seen_of_le_front pos le))

/-- Only the number after the front moves it. -/
theorem front_snoc_of_ne {frames : List Frame} {f : Frame}
    (ne : f.seq.toInt ≠ front frames + 1) : front (frames ++ [f]) = front frames := by
  refine front_eq (fun n pos le => seen_snoc.mpr (.inl (seen_of_le_front pos le))) ?_
  rw [seen_snoc]
  rintro (seen | eq)
  · exact not_seen_front_succ frames seen
  · exact ne (by rw [eq]; rfl)

/-! ## What is delivered of a number -/

/-- The frames of a number that are delivered: the first one, and for the greatest number, which
nothing follows, all of them. -/
def copies (frames : List Frame) (n : Nat) : List Frame :=
  if (n : Int) = Int64.maxValue.toInt then frames.filter (numbered n)
  else (frames.filter (numbered n)).take 1

/-- The first frame of a number. -/
def first (frames : List Frame) (n : Nat) : Option Frame := frames.find? (numbered n)

theorem copies_congr {frames frames' : List Frame} {n : Nat}
    (h : frames.filter (numbered n) = frames'.filter (numbered n)) :
    copies frames n = copies frames' n := by
  rw [copies, copies, h]

theorem copies_snoc_of_ne {frames : List Frame} {f : Frame} {n : Nat} (ne : f.seq.toInt ≠ n) :
    copies (frames ++ [f]) n = copies frames n :=
  copies_congr (by simp [ne])

theorem copies_cons_of_ne {frames : List Frame} {f : Frame} {n : Nat} (ne : f.seq.toInt ≠ n) :
    copies (f :: frames) n = copies frames n :=
  copies_congr (by simp [ne])

/-- A number that comes for the first time is delivered as the frame that brings it. -/
theorem copies_snoc_of_not_seen {frames : List Frame} {f : Frame} {n : Nat}
    (new : ¬ Seen frames n) (eq : f.seq.toInt = n) : copies (frames ++ [f]) n = [f] := by
  have none_before : frames.filter (numbered n) = [] :=
    List.filter_eq_nil_iff.mpr fun g hg h => new ⟨g, hg, numbered_iff.mp h⟩
  rw [copies, List.filter_append, none_before]
  split <;> simp [eq]

theorem seq_of_mem_copies {frames : List Frame} {f : Frame} {n : Nat}
    (h : f ∈ copies frames n) : f.seq.toInt = n := by
  rw [copies] at h
  split at h
  · exact numbered_iff.mp (List.mem_filter.mp h).2
  · exact numbered_iff.mp (List.mem_filter.mp (List.mem_of_mem_take h)).2

/-- Arranging frames does not change what is delivered of a number. -/
theorem copies_arrange (frames : List Frame) (n : Nat) :
    copies (arrange frames) n = copies frames n := by
  refine copies_congr ?_
  rw [filter_arrange]
  exact arrange_eq_self fun f hf => numbered_iff.mp (List.mem_filter.mp hf).2

/-- Of frames beyond a number, all those of a later one are there. -/
theorem copies_filter_of_lt {frames : List Frame} {k n : Nat} (lt : k < n) :
    copies (frames.filter (isBeyond k)) n = copies frames n := by
  refine copies_congr ?_
  rw [List.filter_filter]
  refine List.filter_congr fun f _ => ?_
  by_cases eq : f.seq.toInt = n
  · simp [numbered, isBeyond, eq, lt]
  · simp [numbered, eq]

/-- A number that was seen once and is not the greatest is delivered as its first frame. -/
theorem copies_map_some {frames : List Frame} {n : Nat} (seen : Seen frames n)
    (lt : (n : Int) < Int64.maxValue.toInt) : (copies frames n).map some = [first frames n] := by
  obtain ⟨f, hf, eq⟩ := seen
  have mem : f ∈ frames.filter (numbered n) := List.mem_filter.mpr ⟨hf, numbered_iff.mpr eq⟩
  rw [copies, if_neg (by omega), first, ← List.head?_filter]
  cases h : frames.filter (numbered n) with
  | nil => simp [h] at mem
  | cons g rest => simp

/-- Unless there are more frames than numbers, even the greatest number is delivered once. -/
theorem copies_map_some_of_short {frames : List Frame} {n : Nat} (pos : 1 ≤ n)
    (le : n ≤ front frames) (short : frames.length < 0x8000000000000000) :
    (copies frames n).map some = [first frames n] := by
  have seen := seen_of_le_front pos le
  by_cases lt : (n : Int) < Int64.maxValue.toInt
  · exact copies_map_some seen lt
  have top : (n : Int) = Int64.maxValue.toInt := by
    have := front_le frames
    omega
  -- All the smaller numbers came too, which leaves one frame for the greatest.
  have others : n - 1 ≤ (frames.filter fun f => !numbered n f).length := by
    have seen_below : ∀ m ∈ List.range' 1 (n - 1),
        Seen (frames.filter fun f => !numbered n f) m := by
      intro m hm
      obtain ⟨h₁, h₂⟩ := List.mem_range'_1.mp hm
      obtain ⟨f, hf, eq⟩ := seen_of_le_front h₁ (by omega : m ≤ front frames)
      refine ⟨f, List.mem_filter.mpr ⟨hf, ?_⟩, eq⟩
      simp only [numbered, eq, Bool.not_eq_true', decide_eq_false_iff_not]
      omega
    simpa using length_le_of_seen List.nodup_range' seen_below
  have total := List.length_eq_length_filter_add (l := frames) (numbered n)
  obtain ⟨f, hf, eq⟩ := seen
  have mem : f ∈ frames.filter (numbered n) := List.mem_filter.mpr ⟨hf, numbered_iff.mpr eq⟩
  rw [maxValue_eq] at top
  obtain ⟨g, hg⟩ : ∃ g, frames.filter (numbered n) = [g] := by
    refine List.length_eq_one_iff.mp (Nat.le_antisymm ?_ (List.length_pos_of_mem mem))
    omega
  rw [copies, first, ← List.head?_filter, hg]
  split <;> rfl

/-! ## Closing a gap -/

/-- What is delivered again once the sequence stands at a number: all copies of the greatest one. -/
def again (w : List Frame) (k : Nat) : List Frame :=
  if (k : Int) = Int64.maxValue.toInt then w.filter (numbered k) else []

theorem again_of_not_seen {w : List Frame} {k : Nat} (h : ¬ Seen w k) : again w k = [] := by
  rw [again]
  split
  · exact List.filter_eq_nil_iff.mpr fun f hf eq => h ⟨f, hf, numbered_iff.mp eq⟩
  · rfl

/-- What is delivered of the number at the head of frames in order: its frame, and what that one
delivers again. -/
theorem copies_cons_self {f : Frame} {rest : List Frame} {n : Nat} (eq : f.seq.toInt = n) :
    copies (f :: rest) n = f :: again rest n := by
  rw [copies, again, List.filter_cons_of_pos (numbered_iff.mpr eq)]
  split <;> rfl

/-- Where draining ends, and what it delivers on the way. -/
structure Climb (k : Nat) (w : List Frame) (k' : Nat) : Prop where
  /-- The sequence does not go back. -/
  le : k ≤ k'
  /-- It stands at the new number and holds back what lies beyond. -/
  state : (drain k w).1 = ⟨w.filter (isBeyond k'), k'⟩
  /-- Everything on the way is delivered. -/
  delivered : (drain k w).2 = again w k ++ (List.range' (k + 1) (k' - k)).flatMap (copies w)
  /-- Every number on the way was held back. -/
  seen : ∀ n, k < n → n ≤ k' → Seen w n
  /-- The next one was not. -/
  missing : ¬ Seen w (k' + 1)

theorem drain_cons_due {k : Int} {f : Frame} {rest : List Frame}
    (due : isNext k f.seq.toInt = true) :
    drain k (f :: rest) = ((drain f.seq.toInt rest).1, f :: (drain f.seq.toInt rest).2) := by
  rw [drain, if_pos due]

theorem drain_cons_stale {k : Int} {f : Frame} {rest : List Frame}
    (notDue : ¬ isNext k f.seq.toInt = true) (le : f.seq.toInt ≤ k) :
    drain k (f :: rest) = drain k rest := by
  rw [drain, if_neg notDue, if_pos le]

theorem drain_cons_early {k : Int} {f : Frame} {rest : List Frame}
    (notDue : ¬ isNext k f.seq.toInt = true) (lt : k < f.seq.toInt) :
    drain k (f :: rest) = (⟨f :: rest, k⟩, []) := by
  rw [drain, if_neg notDue, if_neg (by omega)]

theorem seen_cons {f : Frame} {rest : List Frame} {n : Nat} :
    Seen (f :: rest) n ↔ f.seq.toInt = n ∨ Seen rest n := by
  simp [Seen]

theorem flatMap_copies_cons {f : Frame} {rest : List Frame} {ns : List Nat}
    (ne : ∀ n ∈ ns, f.seq.toInt ≠ n) :
    ns.flatMap (copies (f :: rest)) = ns.flatMap (copies rest) :=
  List.flatMap_congr fun n hn => copies_cons_of_ne (ne n hn)

/-- A copy of the number the sequence stands at is delivered again or dropped. -/
theorem Climb.cons_same {k k' : Nat} {f : Frame} {rest : List Frame} (c : Climb k rest k')
    (bound : (k : Int) ≤ Int64.maxValue.toInt) (eq : f.seq.toInt = k) :
    Climb k (f :: rest) k' := by
  have beyond : (f :: rest).filter (isBeyond k') = rest.filter (isBeyond k') := by
    have := c.le
    exact List.filter_cons_of_neg (not_isBeyond (by omega))
  have later : (List.range' (k + 1) (k' - k)).flatMap (copies (f :: rest))
      = (List.range' (k + 1) (k' - k)).flatMap (copies rest) := by
    refine flatMap_copies_cons fun n hn => ?_
    have := (List.mem_range'_1.mp hn).1
    omega
  have due := isNext_iff (Int.natCast_nonneg k) bound (seq_le f)
  have missing : ¬ Seen (f :: rest) (k' + 1) := by
    rw [seen_cons]
    rintro (h | h)
    · have := c.le
      omega
    · exact c.missing h
  have seen : ∀ n, k < n → n ≤ k' → Seen (f :: rest) n :=
    fun n lt le => seen_cons.mpr (.inr (c.seen n lt le))
  -- Only the greatest number, which nothing follows, is due a second time.
  by_cases top : (k : Int) = Int64.maxValue.toInt
  · have step : drain k (f :: rest) = _ := drain_cons_due (due.mpr (.inr (.inl ⟨top, eq⟩)))
    rw [eq] at step
    refine ⟨c.le, ?_, ?_, seen, missing⟩
    · rw [step, c.state, beyond]
    · rw [step, c.delivered, later, again, again, if_pos top, if_pos top,
        List.filter_cons_of_pos (numbered_iff.mpr eq)]
      rfl
  · have step : drain k (f :: rest) = drain k rest :=
      drain_cons_stale (mt due.mp (by rw [resetGap]; omega)) (Int.le_of_eq eq)
    refine ⟨c.le, ?_, ?_, seen, missing⟩
    · rw [step, c.state, beyond]
    · rw [step, c.delivered, later, again, again, if_neg top, if_neg top]

/-- The next number is delivered, and draining goes on from there. -/
theorem Climb.cons_next {k k' : Nat} {f : Frame} {rest : List Frame} (c : Climb (k + 1) rest k')
    (bound : (k : Int) ≤ Int64.maxValue.toInt) (eq : f.seq.toInt = (k : Int) + 1)
    (ordered : ∀ g ∈ rest, f.seq.toInt ≤ g.seq.toInt) : Climb k (f :: rest) k' := by
  have le := c.le
  have step : drain k (f :: rest) = _ :=
    drain_cons_due ((isNext_iff (Int.natCast_nonneg k) bound (seq_le f)).mpr (.inl eq))
  have eq' : f.seq.toInt = ((k + 1 : Nat) : Int) := eq
  rw [eq'] at step
  refine ⟨by omega, ?_, ?_, ?_, ?_⟩
  · rw [step, c.state, List.filter_cons_of_neg (not_isBeyond (by omega))]
  · have none_now : ¬ Seen (f :: rest) k := by
      rw [seen_cons]
      rintro (h | ⟨g, hg, h⟩)
      · omega
      · have := ordered g hg
        omega
    have split : List.range' (k + 1) (k' - k)
        = (k + 1) :: List.range' (k + 1 + 1) (k' - (k + 1)) := by
      rw [← List.range'_succ]
      congr 1
      omega
    rw [step, c.delivered, again_of_not_seen none_now, split, List.flatMap_cons,
      copies_cons_self eq', flatMap_copies_cons fun n hn => ?_]
    · simp
    · have := (List.mem_range'_1.mp hn).1
      omega
  · intro n lt le
    rcases Nat.eq_or_lt_of_le (Nat.succ_le_of_lt lt) with rfl | lt
    · exact seen_cons.mpr (.inl eq)
    · exact seen_cons.mpr (.inr (c.seen n lt le))
  · rw [seen_cons]
    rintro (h | h)
    · omega
    · exact c.missing h

/-- Nothing moves as long as the next number is not there. -/
theorem Climb.early {k : Nat} {w : List Frame} (bound : (k : Int) ≤ Int64.maxValue.toInt)
    (ahead : ∀ g ∈ w, (k : Int) + 1 < g.seq.toInt ∧ g.seq.toInt ≤ k + resetGap) :
    Climb k w k := by
  have unmoved : drain k w = (⟨w, k⟩, []) := by
    cases w with
    | nil => rfl
    | cons f rest =>
      have := ahead f (by simp)
      refine drain_cons_early (mt (isNext_iff (Int.natCast_nonneg k) bound (seq_le f)).mp ?_) ?_
      · rw [resetGap] at *
        omega
      · omega
  have not_seen : ∀ n, n ≤ k + 1 → ¬ Seen w n := by
    rintro n le ⟨g, hg, eq⟩
    have := ahead g hg
    omega
  refine ⟨Nat.le_refl k, ?_, ?_, fun n lt le => by omega, not_seen _ (Nat.le_refl _)⟩
  · rw [unmoved, List.filter_eq_self.mpr]
    intro g hg
    have := ahead g hg
    rw [isBeyond_iff]
    omega
  · rw [unmoved, again_of_not_seen (not_seen k (Nat.le_succ k)), Nat.sub_self]
    rfl

/-- Draining frames in order that are near the number the sequence stands at delivers the numbers
that follow without a gap. -/
theorem drain_climbs {w : List Frame} (ordered : InOrder w) {k : Nat}
    (bound : (k : Int) ≤ Int64.maxValue.toInt)
    (near : ∀ g ∈ w, (k : Int) ≤ g.seq.toInt ∧ g.seq.toInt ≤ k + resetGap) :
    ∃ k', Climb k w k' := by
  induction w generalizing k with
  | nil => exact ⟨k, .early bound (by simp)⟩
  | cons f rest ih =>
    obtain ⟨first_le, rest_ordered⟩ := List.pairwise_cons.mp ordered
    obtain ⟨lo, hi⟩ := near f (by simp)
    have rest_near : ∀ g ∈ rest, f.seq.toInt ≤ g.seq.toInt ∧ g.seq.toInt ≤ k + resetGap :=
      fun g hg => ⟨first_le g hg, (near g (by simp [hg])).2⟩
    rcases Int.le_iff_eq_or_lt.mp lo with same | ahead
    · obtain ⟨k', c⟩ := ih rest_ordered bound fun g hg => near g (by simp [hg])
      exact ⟨k', c.cons_same bound same.symm⟩
    rcases Int.le_iff_eq_or_lt.mp ahead with next | beyond
    · have bound' : ((k + 1 : Nat) : Int) ≤ Int64.maxValue.toInt := by
        have := seq_le f
        omega
      obtain ⟨k', c⟩ := ih rest_ordered bound' fun g hg => by
        have := rest_near g hg
        omega
      exact ⟨k', c.cons_next bound next.symm first_le⟩
    · refine ⟨k, .early bound fun g hg => ?_⟩
      rcases List.mem_cons.mp hg with rfl | hg
      · exact ⟨beyond, hi⟩
      · have := rest_near g hg
        omega

end MarketStream.Reorder
