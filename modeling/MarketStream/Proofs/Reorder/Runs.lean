import Mathlib.Data.List.Induction
import MarketStream.Reorder.Sequencer

/-!
# Runs of a sequencer

A run is a list of moves, pushes of frames and flushes, made one after another. What is held back
during a run is kept in the order of its numbers, and frames of one number stay in the order in
which they arrived: holding a frame back is one step of an insertion sort.

* `Sequencer.Move`, `Sequencer.run` — runs, with everything they deliver;
* `isNext_iff` — when a frame is delivered at once, in exact integers;
* `arrange` — frames in the order of their numbers, as they are held back;
* `filter_arrange` — arranging and choosing commute.
-/

namespace MarketStream.Reorder

/-- The frame belongs to the sequence. -/
def isSequenced (f : Frame) : Bool := decide (0 < f.seq.toInt)

theorem seq_le (f : Frame) : f.seq.toInt ≤ Int64.maxValue.toInt := f.seq.toInt_le

/-- The greatest number as a numeral, for arithmetic. -/
theorem maxValue_eq : Int64.maxValue.toInt = 9223372036854775807 := rfl

theorem clamp_eq (n : Int) : clamp n = max (-9223372036854775808) (min n 9223372036854775807) := rfl

namespace Sequencer

/-- What can be done to a sequencer. -/
inductive Move where
  /-- A frame arrives. -/
  | push (f : Frame)
  /-- Waiting is given up. -/
  | flush

/-- Makes a move, and gives what it delivers. -/
def act (s : Sequencer) : Move → Sequencer × List Frame
  | .push f => s.push f
  | .flush => s.flush

/-- Makes moves one after another, and gives everything they deliver. -/
def run (s : Sequencer) : List Move → Sequencer × List Frame
  | [] => (s, [])
  | m :: rest => (((s.act m).1.run rest).1, (s.act m).2 ++ ((s.act m).1.run rest).2)

@[simp] theorem run_nil (s : Sequencer) : s.run [] = (s, []) := rfl

theorem run_cons (s : Sequencer) (m : Move) (rest : List Move) :
    s.run (m :: rest) = (((s.act m).1.run rest).1, (s.act m).2 ++ ((s.act m).1.run rest).2) := rfl

theorem run_append (s : Sequencer) (before after : List Move) :
    s.run (before ++ after) =
      (((s.run before).1.run after).1, (s.run before).2 ++ ((s.run before).1.run after).2) := by
  induction before generalizing s with
  | nil => simp
  | cons m rest ih => simp [run_cons, ih]

/-- A run followed by one more move. -/
theorem run_snoc (s : Sequencer) (before : List Move) (m : Move) :
    s.run (before ++ [m]) =
      (((s.run before).1.act m).1, (s.run before).2 ++ ((s.run before).1.act m).2) := by
  simp [run_append, run_cons]

/-! ## Nothing is made up -/

theorem mem_of_mem_drain {k : Int} {w : List Frame} {f : Frame}
    (h : f ∈ (drain k w).2 ∨ f ∈ (drain k w).1.waiting) : f ∈ w := by
  induction w generalizing k with
  | nil => simp [drain] at h
  | cons g rest ih =>
    rw [drain] at h
    split at h
    · rcases h with h | h
      · rcases List.mem_cons.mp h with rfl | h
        · exact List.mem_cons_self
        · exact List.mem_cons_of_mem _ (ih (.inl h))
      · exact List.mem_cons_of_mem _ (ih (.inr h))
    · split at h
      · exact List.mem_cons_of_mem _ (ih h)
      · simpa using h

theorem mem_hold {f g : Frame} {w : List Frame} : g ∈ hold f w ↔ g = f ∨ g ∈ w := by
  induction w with
  | nil => simp [hold]
  | cons x rest ih =>
    rw [hold]
    split <;> simp [ih, or_left_comm]

/-- What a push delivers or holds back is the frame itself or was held back before. -/
theorem mem_of_mem_push {s : Sequencer} {f g : Frame}
    (h : g ∈ (s.push f).2 ∨ g ∈ (s.push f).1.waiting) : g = f ∨ g ∈ s.waiting := by
  rw [push] at h
  split at h
  · simpa using h
  · split at h
    · rcases h with h | h
      · rcases List.mem_cons.mp h with rfl | h
        · exact .inl rfl
        · exact .inr (mem_of_mem_drain (.inl h))
      · exact .inr (mem_of_mem_drain (.inr h))
    · split at h
      · exact .inr (by simpa using h)
      · exact mem_hold.mp (by simpa using h)

/-! ## When a frame is due -/

/-- A number is due if it is the next one or lies beyond the gap. The sequence has no number after
the greatest, so that one stays due once it has been delivered. -/
theorem isNext_iff {last seq : Int} (nonneg : 0 ≤ last) (bound : last ≤ Int64.maxValue.toInt)
    (seqBound : seq ≤ Int64.maxValue.toInt) :
    isNext last seq = true ↔
      seq = last + 1 ∨ (last = Int64.maxValue.toInt ∧ seq = last) ∨
        last + resetGap < seq ∨ seq < last - resetGap := by
  rw [isNext, decide_eq_true_iff, clamp_eq, clamp_eq, clamp_eq, resetGap]
  rw [maxValue_eq] at *
  omega

end Sequencer

/-! ## The order in which frames are held back -/

open Sequencer

/-- Frames in the order of their numbers. -/
def InOrder (w : List Frame) : Prop := w.Pairwise fun f g => f.seq.toInt ≤ g.seq.toInt

theorem hold_perm (f : Frame) (w : List Frame) : (hold f w).Perm (f :: w) := by
  induction w with
  | nil => exact .refl _
  | cons g rest ih =>
    rw [hold]
    split
    · exact (ih.cons g).trans (.swap f g rest)
    · exact .refl _

/-- Holding a frame back keeps the order. -/
theorem InOrder.hold {w : List Frame} (h : InOrder w) (f : Frame) : InOrder (hold f w) := by
  induction w with
  | nil => exact List.pairwise_singleton _ _
  | cons g rest ih =>
    obtain ⟨first, rest_in_order⟩ := List.pairwise_cons.mp h
    rw [Sequencer.hold]
    split
    · next le =>
      refine List.pairwise_cons.mpr ⟨fun x hx => ?_, ih rest_in_order⟩
      rcases mem_hold.mp hx with rfl | hx
      · exact le
      · exact first x hx
    · next lt =>
      refine List.pairwise_cons.mpr ⟨fun x hx => ?_, h⟩
      rcases List.mem_cons.mp hx with rfl | hx
      · omega
      · have := first x hx
        omega

/-- A frame that is not ahead of the others comes after all of them. -/
theorem hold_eq_append {f : Frame} {w : List Frame} (h : ∀ g ∈ w, g.seq.toInt ≤ f.seq.toInt) :
    hold f w = w ++ [f] := by
  induction w with
  | nil => rfl
  | cons g rest ih =>
    rw [hold, if_pos (h g (by simp)), ih fun x hx => h x (List.mem_cons_of_mem _ hx)]
    rfl

/-- A frame that is ahead of all others comes before them. -/
theorem hold_eq_cons {f : Frame} {w : List Frame} (h : ∀ g ∈ w, f.seq.toInt < g.seq.toInt) :
    hold f w = f :: w := by
  cases w with
  | nil => rfl
  | cons g rest =>
    have lt := h g (by simp)
    rw [hold, if_neg (by omega)]

/-- Choosing among frames in order commutes with holding one more back. -/
theorem filter_hold {w : List Frame} (h : InOrder w) (f : Frame) (p : Frame → Bool) :
    (hold f w).filter p = if p f then hold f (w.filter p) else w.filter p := by
  induction w with
  | nil => by_cases hp : p f <;> simp [hold, hp]
  | cons g rest ih =>
    obtain ⟨first, rest_in_order⟩ := List.pairwise_cons.mp h
    have ih := ih rest_in_order
    rw [hold]
    split
    · next le => by_cases hf : p f <;> by_cases hg : p g <;> simp [hf, hg, ih, hold, le]
    · next lt =>
      have ahead : ∀ x ∈ (g :: rest).filter p, f.seq.toInt < x.seq.toInt := by
        intro x hx
        rcases List.mem_cons.mp (List.mem_filter.mp hx).1 with rfl | hx
        · omega
        · have := first x hx
          omega
      by_cases hf : p f
      · rw [List.filter_cons_of_pos hf, if_pos hf, hold_eq_cons ahead]
      · rw [List.filter_cons_of_neg hf, if_neg hf]

/-- Frames held back one after another. -/
def arrange (frames : List Frame) : List Frame := frames.foldl (fun w f => hold f w) []

@[simp] theorem arrange_snoc (frames : List Frame) (f : Frame) :
    arrange (frames ++ [f]) = hold f (arrange frames) := by
  rw [arrange, List.foldl_append]
  rfl

theorem arrange_perm (frames : List Frame) : (arrange frames).Perm frames := by
  induction frames using List.reverseRecOn with
  | nil => exact .refl _
  | append_singleton frames f ih =>
    rw [arrange_snoc]
    exact ((hold_perm f _).trans (ih.cons f)).trans (List.perm_append_singleton f frames).symm

@[simp] theorem mem_arrange {f : Frame} {frames : List Frame} : f ∈ arrange frames ↔ f ∈ frames :=
  (arrange_perm frames).mem_iff

theorem inOrder_arrange (frames : List Frame) : InOrder (arrange frames) := by
  induction frames using List.reverseRecOn with
  | nil => exact List.Pairwise.nil
  | append_singleton frames f ih =>
    rw [arrange_snoc]
    exact ih.hold f

/-- Arranging and choosing commute. -/
theorem filter_arrange (frames : List Frame) (p : Frame → Bool) :
    (arrange frames).filter p = arrange (frames.filter p) := by
  induction frames using List.reverseRecOn with
  | nil => rfl
  | append_singleton frames f ih =>
    rw [arrange_snoc, filter_hold (inOrder_arrange frames), ih, List.filter_append]
    by_cases hp : p f <;> simp [hp]

/-- Frames of one number stay as they arrived. -/
theorem arrange_eq_self {frames : List Frame} {n : Int} (h : ∀ f ∈ frames, f.seq.toInt = n) :
    arrange frames = frames := by
  induction frames using List.reverseRecOn with
  | nil => rfl
  | append_singleton frames f ih =>
    have last : f.seq.toInt = n := h f (by simp)
    have others : ∀ g ∈ frames, g.seq.toInt = n := fun g hg => h g (by simp [hg])
    rw [arrange_snoc, ih others]
    exact hold_eq_append fun g hg => Int.le_of_eq ((others g hg).trans last.symm)

end MarketStream.Reorder
