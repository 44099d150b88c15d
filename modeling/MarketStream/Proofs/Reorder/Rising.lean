import MarketStream.Proofs.Reorder.Flow
import MarketStream.Proofs.Reorder.Waiting

/-!
# Numbers only rise

As long as no frame starts the sequence anew, a sequencer delivers numbers in order. A push delivers
each number once: what comes late is dropped on arrival, and copies that wait are dropped as soon as
one of them is delivered. A flush compares nothing, and delivers copies that wait one after another.

* `Rising`, `Spans` — numbers that rise, and from where to where;
* `InWindow.rising_push`, `InWindow.spans_flush`, `spans_act` — what one move delivers;
* `spans_run` — what a run delivers leads from zero to where the sequence stands;
* `rising_iff_flushed_once` — no number is delivered twice unless a flush finds it waiting twice;
* `flushed_copies_delivered` — that this happens.
-/

namespace MarketStream.Reorder

open Sequencer

/-! ## Frames whose numbers rise -/

/-- Each number comes once, and after all smaller ones. -/
def Rising (frames : List Frame) : Prop := frames.Pairwise fun f g => f.seq.toInt < g.seq.toInt

/-- Frames in order rise if none of them has the number of another. -/
theorem rising_iff_nodup {frames : List Frame} (ordered : InOrder frames) :
    Rising frames ↔ (frames.map Frame.seq).Nodup := by
  rw [List.Nodup, List.pairwise_map, Rising]
  have lt_iff : ∀ f g : Frame, f.seq.toInt < g.seq.toInt ↔
      f.seq.toInt ≤ g.seq.toInt ∧ f.seq ≠ g.seq := by
    intro f g
    rw [Int.lt_iff_le_and_ne, Ne, Int64.toInt_inj]
  simp only [lt_iff, List.pairwise_and_iff]
  exact and_iff_right ordered

/-- Frames that lead from one number up to another. -/
structure Spans (lo : Int) (frames : List Frame) (hi : Int) : Prop where
  /-- They lie above the first number. -/
  above : ∀ f ∈ frames, lo < f.seq.toInt
  /-- They lie not above the second one. -/
  upTo : ∀ f ∈ frames, f.seq.toInt ≤ hi
  /-- One of them has the second number, unless there are none. -/
  ends : hi = lo ∨ ∃ f ∈ frames, f.seq.toInt = hi

namespace Spans

variable {lo mid hi : Int} {frames others : List Frame}

theorem nil (lo : Int) : Spans lo [] lo := ⟨by simp, by simp, .inl rfl⟩

theorem le (h : Spans lo frames hi) : lo ≤ hi := by
  rcases h.ends with eq | ⟨f, hf, eq⟩
  · exact Int.le_of_eq eq.symm
  · exact Int.le_of_lt (eq ▸ h.above f hf)

theorem append (h : Spans lo frames mid) (h' : Spans mid others hi) :
    Spans lo (frames ++ others) hi where
  above f hf := by
    rcases List.mem_append.mp hf with hf | hf
    · exact h.above f hf
    · exact Int.lt_of_le_of_lt h.le (h'.above f hf)
  upTo f hf := by
    rcases List.mem_append.mp hf with hf | hf
    · exact Int.le_trans (h.upTo f hf) h'.le
    · exact h'.upTo f hf
  ends := by
    rcases h'.ends with rfl | ⟨f, hf, eq⟩
    · rcases h.ends with eq | ⟨f, hf, eq⟩
      · exact .inl eq
      · exact .inr ⟨f, List.mem_append_left _ hf, eq⟩
    · exact .inr ⟨f, List.mem_append_right _ hf, eq⟩

/-- What lies above a number comes after what leads up to it. -/
theorem lt_of_mem (h : Spans lo frames mid) (h' : Spans mid others hi) {f g : Frame}
    (hf : f ∈ frames) (hg : g ∈ others) : f.seq.toInt < g.seq.toInt :=
  Int.lt_of_le_of_lt (h.upTo f hf) (h'.above g hg)

theorem inOrder_append (h : Spans lo frames mid) (h' : Spans mid others hi)
    (ordered : InOrder frames) (ordered' : InOrder others) : InOrder (frames ++ others) :=
  List.pairwise_append.mpr
    ⟨ordered, ordered', fun _ hf _ hg => Int.le_of_lt (h.lt_of_mem h' hf hg)⟩

theorem rising_append (h : Spans lo frames mid) (h' : Spans mid others hi) :
    Rising (frames ++ others) ↔ Rising frames ∧ Rising others := by
  rw [Rising, List.pairwise_append]
  exact ⟨fun ⟨rising, rising', _⟩ => ⟨rising, rising'⟩,
    fun ⟨rising, rising'⟩ => ⟨rising, rising', fun _ hf _ hg => h.lt_of_mem h' hf hg⟩⟩

end Spans

/-! ## What moves deliver -/

/-- Below the greatest number, what is delivered of rising numbers rises. -/
theorem rising_flatMap_copies {w : List Frame} {ns : List Nat} (rising : ns.Pairwise (· < ·))
    (below : ∀ n ∈ ns, (n : Int) < Int64.maxValue.toInt) : Rising (ns.flatMap (copies w)) := by
  refine List.pairwise_flatMap.mpr ⟨fun n hn => ?_, rising.imp fun lt f hf g hg => ?_⟩
  · have lt := below n hn
    rw [copies, if_neg (by omega)]
    cases w.filter (numbered n) <;> simp
  · rw [seq_of_mem_copies hf, seq_of_mem_copies hg]
    exact Int.ofNat_lt.mpr lt

namespace Climb

variable {k k' : Nat} {w : List Frame}

/-- A climb below the greatest number delivers every number on the way once. -/
theorem delivered_eq (c : Climb k w k') (below : (k' : Int) < Int64.maxValue.toInt) :
    (drain k w).2 = (List.range' (k + 1) (k' - k)).flatMap (copies w) := by
  have le := c.le
  rw [c.delivered, again, if_neg (by omega), List.nil_append]

theorem rising (c : Climb k w k') (below : (k' : Int) < Int64.maxValue.toInt) :
    Rising (drain k w).2 := by
  rw [c.delivered_eq below]
  refine rising_flatMap_copies List.pairwise_lt_range' fun n hn => ?_
  have := List.mem_range'_1.mp hn
  omega

theorem spans (c : Climb k w k') (below : (k' : Int) < Int64.maxValue.toInt) :
    Spans k (drain k w).2 k' := by
  have number : ∀ f ∈ (drain k w).2, (k : Int) < f.seq.toInt ∧ f.seq.toInt ≤ k' := by
    intro f hf
    rw [c.delivered_eq below] at hf
    obtain ⟨n, hn, hf⟩ := List.mem_flatMap.mp hf
    have := List.mem_range'_1.mp hn
    rw [seq_of_mem_copies hf]
    omega
  refine ⟨fun f hf => (number f hf).1, fun f hf => (number f hf).2, ?_⟩
  rcases Nat.eq_or_lt_of_le c.le with rfl | lt
  · exact .inl rfl
  · exact .inr (c.exists_delivered lt (Nat.le_refl k'))

end Climb

namespace Sequencer

/-- What lies above where a sequence stands is sequenced. -/
theorem filter_isSequenced {frames : List Frame} {lo : Int} (nonneg : 0 ≤ lo)
    (above : ∀ f ∈ frames, lo < f.seq.toInt) : frames.filter isSequenced = frames := by
  refine List.filter_eq_self.mpr fun f hf => ?_
  have := above f hf
  rw [isSequenced, decide_eq_true_iff]
  omega

namespace InWindow

variable {s : Sequencer} {f : Frame}

/-- The next frame is followed by all those that it unblocks. -/
theorem rising_next {k k' : Nat} (number : f.seq.toInt = k) (next : f.seq.toInt = s.lastSent + 1)
    (climb : Climb k s.waiting k') (below : (k' : Int) < Int64.maxValue.toInt) :
    Rising (f :: (drain k s.waiting).2) ∧ Spans s.lastSent (f :: (drain k s.waiting).2) k' := by
  have first : Spans s.lastSent [f] k :=
    ⟨by simp; omega, by simp [number], .inr ⟨f, List.mem_singleton_self f, number⟩⟩
  have rest := climb.spans below
  exact ⟨(first.rising_append rest).mpr ⟨List.pairwise_singleton _ f, climb.rising below⟩,
    first.append rest⟩

/-- A push that does not start the sequence anew delivers rising numbers, which lead from where the
sequence stood to where it stands then. -/
theorem rising_push (h : s.InWindow) (near : 0 < f.seq.toInt → ¬ IsFar s.lastSent f.seq.toInt)
    (below : ∀ g ∈ f :: s.waiting, g.seq.toInt < Int64.maxValue.toInt) :
    Rising ((s.push f).2.filter isSequenced) ∧
      Spans s.lastSent ((s.push f).2.filter isSequenced) (s.push f).1.lastSent := by
  by_cases unsequenced : f.seq.toInt ≤ 0
  · have passed : s.push f = (s, [f]) := if_pos unsequenced
    have none_sequenced : [f].filter isSequenced = [] := by simp [isSequenced, unsequenced]
    rw [passed, none_sequenced]
    exact ⟨.nil, .nil s.lastSent⟩
  have pos : 0 < f.seq.toInt := by omega
  have due := mem_push_iff (s := s) pos
  rw [h.isNext_iff] at due
  generalize pushed : s.push f = result at due
  cases pushed ▸ h.pushed f with
  | passed => omega
  | @next k k' number ge le climb =>
    have next : f.seq.toInt = s.lastSent + 1 := by
      rcases due.mp List.mem_cons_self with next | ⟨top, same⟩ | far
      · exact next
      · have := below f List.mem_cons_self
        omega
      · exact absurd far (near pos)
    have top : (k' : Int) < Int64.maxValue.toInt := by
      rcases Nat.eq_or_lt_of_le climb.le with rfl | lt
      · exact number ▸ below f List.mem_cons_self
      · obtain ⟨g, hg, eq⟩ := climb.seen k' lt (Nat.le_refl k')
        exact eq ▸ below g (List.mem_cons_of_mem f hg)
    obtain ⟨rising, spans⟩ := rising_next number next climb top
    rw [filter_isSequenced h.nonneg spans.above, climb.state]
    exact ⟨rising, spans⟩
  | restarted _ far => exact absurd far (near pos)
  | resumed _ far => exact absurd far (near pos)
  | late => exact ⟨.nil, .nil s.lastSent⟩
  | held => exact ⟨.nil, .nil s.lastSent⟩

/-- A flush delivers what waits, which leads on from where the sequence stood. -/
theorem spans_flush (h : s.InWindow) : Spans s.lastSent s.flush.2 s.flush.1.lastSent := by
  have above : ∀ g ∈ s.waiting, s.lastSent < g.seq.toInt := by
    intro g hg
    have := h.ahead g hg
    omega
  show Spans s.lastSent s.waiting ((s.waiting.getLast?.map fun g => g.seq.toInt).getD s.lastSent)
  cases last : s.waiting.getLast? with
  | none =>
    rw [List.getLast?_eq_none_iff.mp last]
    exact .nil s.lastSent
  | some g =>
    obtain ⟨others, waiting⟩ := List.getLast?_eq_some_iff.mp last
    have ordered := h.ordered
    rw [waiting] at ordered
    refine ⟨above, fun d hd => ?_, .inr ⟨g, List.mem_of_getLast? last, rfl⟩⟩
    rcases List.mem_append.mp (waiting ▸ hd) with hd | hd
    · exact (List.pairwise_append.mp ordered).2.2 d hd g (List.mem_singleton_self g)
    · obtain rfl := List.mem_singleton.mp hd
      exact Int.le_refl _

end InWindow

/-! ## Runs -/

/-- Whatever a run delivers or holds back was pushed. -/
theorem mem_arrivals {moves : List Move} {g : Frame}
    (h : g ∈ (empty.run moves).2 ∨ g ∈ (empty.run moves).1.waiting) : g ∈ arrivals moves := by
  induction moves using List.reverseRecOn with
  | nil => simp [empty] at h
  | append_singleton before m ih =>
    rw [run_snoc, List.mem_append, or_assoc] at h
    rw [arrivals_append, List.mem_append]
    rcases h with h | h
    · exact .inl (ih (.inl h))
    cases m with
    | push f =>
      rcases mem_of_mem_push h with rfl | h
      · exact .inr (List.mem_singleton_self g)
      · exact .inl (ih (.inr h))
    | flush => exact .inl (ih (.inr (by simpa [act, flush] using h)))

/-- The sequenced frames that a run from the start delivers. -/
def sequencedBy (moves : List Move) : List Frame := (empty.run moves).2.filter isSequenced

theorem sequencedBy_snoc (moves : List Move) (m : Move) :
    sequencedBy (moves ++ [m])
      = sequencedBy moves ++ ((empty.run moves).1.act m).2.filter isSequenced := by
  rw [sequencedBy, run_snoc, List.filter_append]
  rfl

/-- No number of a run lies beyond the gap, so no frame can start the sequence anew. -/
def StaysNear (moves : List Move) : Prop := ∀ f ∈ arrivals moves, f.seq.toInt ≤ resetGap

theorem StaysNear.before {moves : List Move} {m : Move} (near : StaysNear (moves ++ [m])) :
    StaysNear moves := fun f hf => near f (by rw [arrivals_append]; exact List.mem_append_left _ hf)

/-- What a move delivers after a run: numbers in order, which rise unless a flush finds one of them
waiting twice. -/
theorem spans_act {moves : List Move} {m : Move} (near : StaysNear (moves ++ [m]))
    (spans : Spans 0 (sequencedBy moves) (empty.run moves).1.lastSent) :
    let s := (empty.run moves).1
    let out := (s.act m).2.filter isSequenced
    InOrder out ∧ Spans s.lastSent out (s.act m).1.lastSent ∧
      (Rising out ↔ (m = .flush → (s.waiting.map Frame.seq).Nodup)) := by
  intro s out
  have window : s.InWindow := inWindow_run moves
  have gap : resetGap = 1000 := rfl
  have lastSent_le : s.lastSent ≤ resetGap := by
    rcases spans.ends with zero | ⟨g, hg, eq⟩
    · have stands : s.lastSent = 0 := zero
      omega
    · exact eq ▸ near.before g (mem_arrivals (.inl (List.mem_filter.mp hg).1))
  cases m with
  | push f =>
    have arrives : f ∈ arrivals (moves ++ [.push f]) := by
      rw [arrivals_append]
      exact List.mem_append_right _ (List.mem_singleton_self f)
    have notFar : 0 < f.seq.toInt → ¬ IsFar s.lastSent f.seq.toInt := by
      intro pos far
      have nonneg := window.nonneg
      have number := near f arrives
      rw [IsFar] at far
      omega
    have below : ∀ g ∈ f :: s.waiting, g.seq.toInt < Int64.maxValue.toInt := by
      intro g hg
      have number : g.seq.toInt ≤ resetGap := by
        rcases List.mem_cons.mp hg with rfl | hg
        · exact near g arrives
        · exact near.before g (mem_arrivals (.inr hg))
      rw [maxValue_eq]
      omega
    obtain ⟨rising, spans⟩ := window.rising_push notFar below
    refine ⟨rising.imp Int.le_of_lt, spans, iff_of_true rising fun isFlush => ?_⟩
    cases isFlush
  | flush =>
    have all : out = s.waiting := filter_isSequenced window.nonneg window.spans_flush.above
    rw [all]
    refine ⟨window.ordered, window.spans_flush, ?_⟩
    rw [rising_iff_nodup window.ordered]
    exact ⟨fun nodup _ => nodup, fun nodup => nodup rfl⟩

/-- What a run delivers leads in order from zero to where the sequence stands. -/
theorem spans_run {moves : List Move} (near : StaysNear moves) :
    InOrder (sequencedBy moves) ∧ Spans 0 (sequencedBy moves) (empty.run moves).1.lastSent := by
  induction moves using List.reverseRecOn with
  | nil => exact ⟨.nil, .nil 0⟩
  | append_singleton before m ih =>
    obtain ⟨ordered, spans⟩ := ih near.before
    obtain ⟨ordered', spans', -⟩ := spans_act near spans
    rw [sequencedBy_snoc, run_snoc]
    exact ⟨spans.inOrder_append spans' ordered ordered', spans.append spans'⟩

/-- What holds before every flush of a run holds before those of its beginning, and at its end if
its last move is a flush. -/
theorem before_flush_snoc {P : List Move → Prop} {moves : List Move} {m : Move} :
    (∀ past later, moves ++ [m] = past ++ .flush :: later → P past) ↔
      (∀ past later, moves = past ++ .flush :: later → P past) ∧ (m = .flush → P moves) := by
  constructor
  · intro all
    refine ⟨fun past later eq => all past (later ++ [m]) ?_, fun eq => all moves [] (eq ▸ rfl)⟩
    rw [eq, List.append_assoc, List.cons_append]
  · rintro ⟨all, last⟩ past later eq
    rcases List.eq_nil_or_concat later with rfl | ⟨init, m', rfl⟩
    · obtain ⟨rfl, same⟩ := List.append_inj' eq rfl
      exact last (List.singleton_injective same)
    · have cut : moves ++ [m] = (past ++ .flush :: init) ++ [m'] := by simpa using eq
      exact all past init (List.append_inj' cut rfl).1

theorem rising_run_iff {moves : List Move} (near : StaysNear moves) :
    Rising (sequencedBy moves) ↔
      ∀ past later, moves = past ++ .flush :: later →
        ((empty.run past).1.waiting.map Frame.seq).Nodup := by
  induction moves using List.reverseRecOn with
  | nil => exact iff_of_true .nil (by simp)
  | append_singleton before m ih =>
    have spans := (spans_run near.before).2
    obtain ⟨-, spans', rising'⟩ := spans_act near spans
    rw [sequencedBy_snoc, spans.rising_append spans', ih near.before, rising', before_flush_snoc]

end Sequencer

open Sequencer

/-- **No number is delivered twice, unless a flush finds it waiting twice.** Take any run of pushes
and flushes in which no sequenced frame has a number above 1000. What it delivers of the sequence is
in the order of the numbers, so nothing comes after a higher number; and each number is delivered
once exactly if no flush finds two frames of one number waiting. -/
theorem rising_iff_flushed_once (moves : List Move)
    (near : ∀ f ∈ arrivals moves, f.seq.toInt ≤ 1000) :
    let out := (empty.run moves).2.filter isSequenced
    (out.Pairwise fun f g => f.seq.toInt ≤ g.seq.toInt) ∧
      ((out.Pairwise fun f g => f.seq.toInt < g.seq.toInt) ↔
        ∀ past later, moves = past ++ .flush :: later →
          ((empty.run past).1.waiting.map Frame.seq).Nodup) :=
  ⟨(spans_run near).1, rising_run_iff near⟩

/-- Copies that come late, or wait when one of them is delivered, are dropped: the first flush finds
only 5 and 7 waiting. -/
theorem rising_iff_flushed_once_sample :
    let before := (sample [2, 2, 5, 1, 2, 7]).map Move.push
    let moves := before ++ .flush :: (sample [5, 8, 1000]).map .push ++ [.flush]
    (∀ f ∈ arrivals moves, f.seq.toInt ≤ 1000) ∧
      (empty.run moves).2 = sample [1, 2, 5, 7, 8, 1000] ∧
      ((empty.run before).1.waiting.map Frame.seq).Nodup := by
  intro before moves
  have near : ∀ f ∈ arrivals moves, f.seq.toInt ≤ 1000 := by decide
  exact ⟨near, by decide, (rising_iff_flushed_once moves near).2.mp (by decide) before _ rfl⟩

/-- A flush delivers a number twice if two frames of it wait, though the second one is then as late
as one that a push would drop. -/
theorem flushed_copies_delivered :
    let moves := (sample [3, 3]).map Move.push ++ [.flush]
    (empty.run moves).2 = sample [3, 3] ∧
      ¬ ∀ moves, (∀ f ∈ arrivals moves, f.seq.toInt ≤ 1000) →
        ((empty.run moves).2.filter isSequenced).Pairwise fun f g => f.seq.toInt < g.seq.toInt := by
  intro moves
  refine ⟨by decide, fun always => ?_⟩
  have twice : ¬ ((empty.run moves).2.filter isSequenced).Pairwise
      fun f g => f.seq.toInt < g.seq.toInt := by decide
  exact twice (always moves (by decide))

end MarketStream.Reorder
