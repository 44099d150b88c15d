import MarketStream.Proofs.Reorder.Front

/-!
# The window of what waits

Whatever has been pushed, what waits stays within a window: it lies beyond the number that is next
and not more than the gap ahead of where the sequence stands. A frame that starts the sequence anew
leaves the window behind. Then either everything that waits has just been passed and is dropped, or
the first frame that waits is itself far away and starts the sequence anew once more.

* `Sequencer.InWindow` — what holds of a sequencer at every instant;
* `Sequencer.Pushed`, `InWindow.pushed` — everything that a push can do;
* `inWindow_run` — every run stays within the window.
-/

namespace MarketStream.Reorder

open Sequencer

namespace Sequencer

/-- A number is far from another one: it starts the sequence anew. -/
def IsFar (lastSent seq : Int) : Prop := lastSent + resetGap < seq ∨ seq < lastSent - resetGap

/-- What waits lies in the window of the number that the sequence stands at. -/
structure InWindow (s : Sequencer) : Prop where
  /-- The sequence stands at zero or at a number of a sequence. -/
  nonneg : 0 ≤ s.lastSent
  /-- It is a number that a frame can have. -/
  bound : s.lastSent ≤ Int64.maxValue.toInt
  /-- What waits is in order. -/
  ordered : InOrder s.waiting
  /-- The next number does not wait. -/
  ahead : ∀ g ∈ s.waiting, s.lastSent + 1 < g.seq.toInt
  /-- Nothing that waits is far ahead. -/
  near : ∀ g ∈ s.waiting, g.seq.toInt ≤ s.lastSent + resetGap

end Sequencer

/-! ## Climbs -/

namespace Climb

variable {k k' : Nat} {w : List Frame}

/-- Every number on the way is delivered. -/
theorem exists_delivered (c : Climb k w k') {n : Nat} (lt : k < n) (le : n ≤ k') :
    ∃ g ∈ (drain k w).2, g.seq.toInt = n := by
  obtain ⟨g, hg, eq⟩ := c.seen n lt le
  have some_copy : copies w n ≠ [] := by
    have mem : g ∈ w.filter (numbered n) := List.mem_filter.mpr ⟨hg, numbered_iff.mpr eq⟩
    rw [copies]
    split
    · exact List.ne_nil_of_mem mem
    · simpa using List.ne_nil_of_mem mem
  obtain ⟨d, hd⟩ := List.exists_mem_of_ne_nil _ some_copy
  refine ⟨d, ?_, seq_of_mem_copies hd⟩
  rw [c.delivered, List.mem_append, List.mem_flatMap]
  exact .inr ⟨n, List.mem_range'_1.mpr (by omega), hd⟩

/-- A frame that waited still waits, or its number has been delivered. -/
theorem waits_or_passed (c : Climb k w k') {g : Frame} (hg : g ∈ w) (lt : (k : Int) < g.seq.toInt) :
    g ∈ (drain k w).1.waiting ∨ ∃ d ∈ (drain k w).2, d.seq = g.seq := by
  by_cases beyond : (k' : Int) < g.seq.toInt
  · left
    rw [c.state]
    exact List.mem_filter.mpr ⟨hg, isBeyond_iff.mpr beyond⟩
  · right
    obtain ⟨d, hd, eq⟩ := c.exists_delivered (n := g.seq.toInt.toNat) (by omega) (by omega)
    exact ⟨d, hd, Int64.toInt_inj.mp (by omega)⟩

/-- It ends at a number that a frame can have. -/
theorem bound (c : Climb k w k') (bound : (k : Int) ≤ Int64.maxValue.toInt) :
    (k' : Int) ≤ Int64.maxValue.toInt := by
  rcases Nat.eq_or_lt_of_le c.le with rfl | lt
  · exact bound
  · obtain ⟨g, -, eq⟩ := c.seen k' lt (Nat.le_refl k')
    rw [← eq]
    exact seq_le g

/-- It ends within the window. -/
theorem inWindow (c : Climb k w k') (bound : (k : Int) ≤ Int64.maxValue.toInt)
    (ordered : InOrder w) (near : ∀ g ∈ w, g.seq.toInt ≤ k + resetGap) :
    (drain k w).1.InWindow := by
  have le := c.le
  rw [c.state]
  refine ⟨Int.natCast_nonneg k', c.bound bound, ordered.filter _, fun g hg => ?_, fun g hg => ?_⟩
  all_goals obtain ⟨hg, beyond⟩ := List.mem_filter.mp hg
  all_goals rw [isBeyond_iff] at beyond
  · have missing : g.seq.toInt ≠ ((k' + 1 : Nat) : Int) := fun eq => c.missing ⟨g, hg, eq⟩
    show (k' : Int) + 1 < g.seq.toInt
    omega
  · have := near g hg
    show g.seq.toInt ≤ (k' : Int) + resetGap
    omega

end Climb

namespace Sequencer

/-! ## What a push can do -/

/-- What a push makes of a sequencer, and what it delivers. -/
inductive Pushed (s : Sequencer) (f : Frame) : Sequencer × List Frame → Prop where
  /-- A frame outside the sequence passes straight through. -/
  | passed (unsequenced : f.seq.toInt ≤ 0) : Pushed s f (s, [f])
  /-- The next number closes the gap before what waits. Nothing comes after the greatest number, so
  that one may be next again. -/
  | next {k k' : Nat} (number : f.seq.toInt = k) (ge : s.lastSent ≤ k) (le : k ≤ s.lastSent + 1)
    (climb : Climb k s.waiting k') :
    Pushed s f ((drain k s.waiting).1, f :: (drain k s.waiting).2)
  /-- The sequence starts anew, and everything that waited has just been passed. -/
  | restarted (pos : 0 < f.seq.toInt) (far : IsFar s.lastSent f.seq.toInt)
    (passed : ∀ g ∈ s.waiting, g.seq.toInt < f.seq.toInt ∧ f.seq.toInt ≤ g.seq.toInt + resetGap) :
    Pushed s f (⟨[], f.seq.toInt⟩, [f])
  /-- The sequence starts anew, and once more with the first frame that waited. -/
  | resumed {g : Frame} {rest : List Frame} {k k' : Nat} (pos : 0 < f.seq.toInt)
    (far : IsFar s.lastSent f.seq.toInt) (waiting : s.waiting = g :: rest)
    (far' : IsFar f.seq.toInt g.seq.toInt) (number : g.seq.toInt = k) (climb : Climb k rest k') :
    Pushed s f ((drain k rest).1, f :: g :: (drain k rest).2)
  /-- A number that the sequence has passed is dropped. -/
  | late (pos : 0 < f.seq.toInt) (le : f.seq.toInt ≤ s.lastSent) : Pushed s f (s, [])
  /-- A number ahead of a gap is held back. -/
  | held (gt : s.lastSent + 1 < f.seq.toInt) (le : f.seq.toInt ≤ s.lastSent + resetGap) :
    Pushed s f ({ s with waiting := hold f s.waiting }, [])

/-- Everything that the sequence has just passed is dropped. -/
theorem drain_of_passed {k : Int} {w : List Frame} (nonneg : 0 ≤ k)
    (bound : k ≤ Int64.maxValue.toInt)
    (passed : ∀ g ∈ w, g.seq.toInt < k ∧ k ≤ g.seq.toInt + resetGap) :
    drain k w = (⟨[], k⟩, []) := by
  induction w with
  | nil => rfl
  | cons g rest ih =>
    obtain ⟨lt, le⟩ := passed g (by simp)
    have notDue : ¬ isNext k g.seq.toInt = true := by
      rw [isNext_iff nonneg bound (seq_le g)]
      omega
    rw [drain_cons_stale notDue (by omega)]
    exact ih fun g hg => passed g (List.mem_cons_of_mem _ hg)

namespace InWindow

variable {s : Sequencer} {f : Frame}

/-- When a frame is delivered at once. -/
theorem isNext_iff (h : s.InWindow) :
    isNext s.lastSent f.seq.toInt = true ↔
      f.seq.toInt = s.lastSent + 1 ∨
        (s.lastSent = Int64.maxValue.toInt ∧ f.seq.toInt = s.lastSent) ∨
        IsFar s.lastSent f.seq.toInt := by
  rw [Sequencer.isNext_iff h.nonneg h.bound (seq_le f), IsFar]

/-- The first frame that waits is not ahead of any other. -/
theorem first_le (h : s.InWindow) {first g : Frame} {rest : List Frame}
    (waiting : s.waiting = first :: rest) (hg : g ∈ s.waiting) :
    first.seq.toInt ≤ g.seq.toInt := by
  obtain ⟨first_le, -⟩ := List.pairwise_cons.mp (waiting ▸ h.ordered)
  rcases List.mem_cons.mp (waiting ▸ hg) with rfl | hg
  · exact Int.le_refl _
  · exact first_le g hg

/-- A frame that starts the sequence anew. -/
theorem pushed_far (h : s.InWindow) (pos : 0 < f.seq.toInt)
    (far : IsFar s.lastSent f.seq.toInt) :
    Pushed s f ((drain f.seq.toInt s.waiting).1, f :: (drain f.seq.toInt s.waiting).2) := by
  by_cases headFar : ∃ g rest, s.waiting = g :: rest ∧ IsFar f.seq.toInt g.seq.toInt
  · obtain ⟨g, rest, waiting, far'⟩ := headFar
    have due : isNext f.seq.toInt g.seq.toInt = true :=
      (Sequencer.isNext_iff (by omega) (seq_le f) (seq_le g)).mpr (.inr (.inr far'))
    have ahead := h.ahead g (by simp [waiting])
    obtain ⟨k, number⟩ := Int.eq_ofNat_of_zero_le (a := g.seq.toInt) (by have := h.nonneg; omega)
    obtain ⟨first_le, ordered⟩ := List.pairwise_cons.mp (waiting ▸ h.ordered)
    -- What waits spans less than the gap, so none of it is far from the first frame.
    obtain ⟨k', climb⟩ := drain_climbs (k := k) ordered (number ▸ seq_le g) fun d hd => by
      have := first_le d hd
      have := h.near d (by simp [waiting, hd])
      omega
    rw [waiting, drain_cons_due due, number]
    exact .resumed pos far waiting far' number climb
  · -- The frame is ahead of all that waits, or else the first of it would be far.
    have passed : ∀ g ∈ s.waiting,
        g.seq.toInt < f.seq.toInt ∧ f.seq.toInt ≤ g.seq.toInt + resetGap := by
      intro g hg
      obtain ⟨first, rest, waiting⟩ := List.exists_cons_of_ne_nil (List.ne_nil_of_mem hg)
      have near_first : ¬ IsFar f.seq.toInt first.seq.toInt := fun far' =>
        headFar ⟨first, rest, waiting, far'⟩
      have first_le := h.first_le waiting hg
      have ahead := h.ahead first (by simp [waiting])
      have near := h.near g hg
      rw [IsFar, resetGap] at *
      omega
    rw [drain_of_passed (by omega) (seq_le f) passed]
    exact .restarted pos far passed

/-- Everything that a push can do. -/
theorem pushed (h : s.InWindow) (f : Frame) : Pushed s f (s.push f) := by
  rw [push]
  by_cases unsequenced : f.seq.toInt ≤ 0
  · rw [if_pos unsequenced]
    exact .passed unsequenced
  rw [if_neg unsequenced]
  have pos : 0 < f.seq.toInt := by omega
  by_cases far : IsFar s.lastSent f.seq.toInt
  · rw [if_pos (h.isNext_iff.mpr (.inr (.inr far)))]
    exact h.pushed_far pos far
  have gap : resetGap = 1000 := rfl
  rw [IsFar] at far
  by_cases due : isNext s.lastSent f.seq.toInt = true
  · rw [if_pos due]
    have := h.isNext_iff.mp due
    obtain ⟨k, number⟩ := Int.eq_ofNat_of_zero_le (a := f.seq.toInt) (by omega)
    have ge : s.lastSent ≤ k := by rw [IsFar] at this; omega
    have le : (k : Int) ≤ s.lastSent + 1 := by rw [IsFar] at this; omega
    obtain ⟨k', climb⟩ := drain_climbs (k := k) h.ordered (number ▸ seq_le f) fun g hg => by
      have := h.ahead g hg
      have := h.near g hg
      omega
    rw [number]
    exact .next number ge le climb
  rw [if_neg due]
  by_cases late : f.seq.toInt ≤ s.lastSent
  · rw [if_pos late]
    exact .late pos late
  · rw [if_neg late]
    have notNext : f.seq.toInt ≠ s.lastSent + 1 := fun eq => due (h.isNext_iff.mpr (.inl eq))
    exact .held (by omega) (by omega)

/-! ## Every run stays within the window -/

theorem push (h : s.InWindow) (f : Frame) : (s.push f).1.InWindow := by
  generalize eq : s.push f = result
  cases eq ▸ h.pushed f with
  | passed => exact h
  | next number ge le climb =>
    refine climb.inWindow (number ▸ seq_le f) h.ordered fun g hg => ?_
    have := h.near g hg
    omega
  | restarted pos => exact ⟨Int.le_of_lt pos, seq_le f, List.Pairwise.nil, by simp, by simp⟩
  | resumed _ _ waiting _ number climb =>
    obtain ⟨-, ordered⟩ := List.pairwise_cons.mp (waiting ▸ h.ordered)
    refine climb.inWindow (number ▸ seq_le _) ordered fun g hg => ?_
    have := h.near g (by simp [waiting, hg])
    have := h.ahead _ (waiting ▸ List.mem_cons_self)
    omega
  | late => exact h
  | held gt le =>
    refine ⟨h.nonneg, h.bound, h.ordered.hold f, fun g hg => ?_, fun g hg => ?_⟩
    · rcases mem_hold.mp hg with rfl | hg
      · exact gt
      · exact h.ahead g hg
    · rcases mem_hold.mp hg with rfl | hg
      · exact le
      · exact h.near g hg

theorem flush (h : s.InWindow) : s.flush.1.InWindow := by
  rw [Sequencer.flush]
  cases last : s.waiting.getLast? with
  | none => exact ⟨h.nonneg, h.bound, List.Pairwise.nil, by simp, by simp⟩
  | some g =>
    have ahead := h.ahead g (List.mem_of_getLast? last)
    have nonneg : 0 ≤ g.seq.toInt := by
      have := h.nonneg
      omega
    exact ⟨nonneg, seq_le g, List.Pairwise.nil, by simp, by simp⟩

theorem run (h : s.InWindow) (moves : List Move) : (s.run moves).1.InWindow := by
  induction moves generalizing s with
  | nil => exact h
  | cons m rest ih =>
    cases m with
    | push f => exact ih (h.push f)
    | flush => exact ih h.flush

end InWindow

theorem inWindow_empty : empty.InWindow :=
  ⟨Int.le_refl 0, by decide, List.Pairwise.nil, by simp [empty], by simp [empty]⟩

/-- Whatever is done to a fresh sequencer, it stays within the window. -/
theorem inWindow_run (moves : List Move) : (empty.run moves).1.InWindow := inWindow_empty.run moves

end Sequencer

end MarketStream.Reorder
