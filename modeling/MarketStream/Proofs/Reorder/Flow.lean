import MarketStream.Proofs.Reorder.Restore
import MarketStream.Proofs.Reorder.Window

/-!
# The flow after a jump

A frame that is delivered should be followed by the one of the next number. So it is, unless the
frame started the sequence anew and what waited far behind called the sequence back: numbers that
follow each other up to within the gap of the frame. They are delivered after the frame, and the
next number then counts as ahead of a gap and is held back.

* `Recalls` — what waits calls the sequence back;
* `flows_iff_not_recalls` — exactly then the next number does not flow;
* `recalled_sequence_stalls` — that this happens.
-/

namespace MarketStream.Reorder

namespace Sequencer

/-- Behind a frame that starts the sequence anew, the numbers that wait begin far away and follow
each other up to within the gap of the number after the frame. -/
def Recalls (s : Sequencer) (f : Frame) : Prop :=
  s.lastSent + resetGap < f.seq.toInt ∧
    ∃ g ∈ s.waiting.head?, g.seq.toInt + resetGap < f.seq.toInt ∧
      ∀ n, g.seq.toInt ≤ n → n + resetGap ≤ f.seq.toInt + 1 → ∃ d ∈ s.waiting, d.seq.toInt = n

/-- The number of the next frame is delivered along with a frame, or the next frame at once. -/
def Flows (s : Sequencer) (f next : Frame) : Prop :=
  (∃ d ∈ (s.push f).2, d.seq = next.seq) ∨ next ∈ ((s.push f).1.push next).2

/-- A sequenced frame is delivered by its own push exactly if it is due. -/
theorem mem_push_iff {s : Sequencer} {f : Frame} (pos : 0 < f.seq.toInt) :
    f ∈ (s.push f).2 ↔ isNext s.lastSent f.seq.toInt = true := by
  rw [push, if_neg (by omega)]
  by_cases due : isNext s.lastSent f.seq.toInt = true
  · simp [due]
  · rw [if_neg due]
    split <;> simp [due]

section

variable {s : Sequencer} {f next : Frame}

/-- When the next frame is delivered, in terms of where the sequence stands. -/
theorem InWindow.mem_push_push_iff (h : s.InWindow) (pos : 0 < next.seq.toInt) :
    next ∈ ((s.push f).1.push next).2 ↔
      next.seq.toInt = (s.push f).1.lastSent + 1 ∨
        ((s.push f).1.lastSent = Int64.maxValue.toInt ∧
          next.seq.toInt = (s.push f).1.lastSent) ∨
        IsFar (s.push f).1.lastSent next.seq.toInt := by
  rw [mem_push_iff pos, (h.push f).isNext_iff]

/-- A frame starts the sequence anew ahead of what waits, which then takes the sequence back to
where its numbers stop following each other. The next number flows if that is far enough behind. -/
theorem InWindow.flows_iff_far (h : s.InWindow) {g : Frame} {rest : List Frame} {k k' : Nat}
    (succ : next.seq.toInt = f.seq.toInt + 1) (ahead : s.lastSent + resetGap < f.seq.toInt)
    (waiting : s.waiting = g :: rest) (number : g.seq.toInt = k) (climb : Climb k rest k')
    (pushed : s.push f = ((drain k rest).1, f :: g :: (drain k rest).2)) :
    s.Flows f next ↔ (k' : Int) + resetGap < f.seq.toInt + 1 := by
  have gap : resetGap = 1000 := rfl
  have nonneg := h.nonneg
  have near : ∀ d ∈ g :: rest, d.seq.toInt < f.seq.toInt := by
    intro d hd
    have := h.near d (waiting ▸ hd)
    omega
  have behind : (k' : Int) < f.seq.toInt := by
    rcases Nat.eq_or_lt_of_le climb.le with rfl | lt
    · have := near g List.mem_cons_self
      omega
    · obtain ⟨d, hd, eq⟩ := climb.seen k' lt (Nat.le_refl k')
      have := near d (List.mem_cons_of_mem g hd)
      omega
  have not_along : ¬ ∃ d ∈ (s.push f).2, d.seq = next.seq := by
    rintro ⟨d, hd, eq⟩
    rw [← Int64.toInt_inj] at eq
    rw [pushed] at hd
    rcases List.mem_cons.mp hd with rfl | hd
    · omega
    · have waited : d ∈ g :: rest := by
        rcases List.mem_cons.mp hd with rfl | hd
        · exact List.mem_cons_self
        · exact List.mem_cons_of_mem g (mem_of_mem_drain (.inl hd))
      have := near d waited
      omega
  have lastSent : (s.push f).1.lastSent = k' := by rw [pushed, climb.state]
  rw [Flows, or_iff_right not_along, h.mem_push_push_iff (by omega), lastSent, succ, IsFar]
  have := seq_le next
  omega

/-- What waits calls the sequence back if its numbers follow each other up to near the frame. -/
theorem recalls_iff_near {g : Frame} {rest : List Frame} {k k' : Nat}
    (ahead : s.lastSent + resetGap < f.seq.toInt) (waiting : s.waiting = g :: rest)
    (far : g.seq.toInt + resetGap < f.seq.toInt) (number : g.seq.toInt = k)
    (climb : Climb k rest k') : s.Recalls f ↔ f.seq.toInt + 1 ≤ (k' : Int) + resetGap := by
  have le := climb.le
  constructor
  · rintro ⟨-, first, hfirst, -, all⟩
    by_contra short
    obtain rfl : g = first := by simpa [waiting] using hfirst
    -- The number after the one that the sequence is called back to does not wait.
    obtain ⟨d, hd, eq⟩ := all (k' + 1) (by omega) (by omega)
    rw [waiting] at hd
    rcases List.mem_cons.mp hd with rfl | hd
    · omega
    · exact climb.missing ⟨d, hd, eq⟩
  · intro reaches
    refine ⟨ahead, g, by simp [waiting], far, fun n ge upTo => ?_⟩
    obtain ⟨m, rfl⟩ := Int.eq_ofNat_of_zero_le (a := n) (by omega)
    rcases Nat.eq_or_lt_of_le (n := k) (m := m) (by omega) with rfl | lt
    · exact ⟨g, by simp [waiting], number⟩
    · obtain ⟨d, hd, eq⟩ := climb.seen m lt (by omega)
      exact ⟨d, by simp [waiting, hd], eq⟩

theorem InWindow.flows_iff (h : s.InWindow) (pos : 0 < f.seq.toInt)
    (succ : next.seq.toInt = f.seq.toInt + 1) (delivered : f ∈ (s.push f).2) :
    s.Flows f next ↔ ¬ s.Recalls f := by
  have gap : resetGap = 1000 := rfl
  have bound := seq_le next
  have due := (mem_push_iff pos).mp delivered
  have posNext : 0 < next.seq.toInt := by omega
  generalize pushed : s.push f = result
  cases pushed ▸ h.pushed f with
  | passed unsequenced => omega
  | @next k k' number ge le climb =>
    have notRecalled : ¬ s.Recalls f := by
      rintro ⟨ahead, -⟩
      omega
    refine iff_of_true ?_ notRecalled
    rcases Nat.eq_or_lt_of_le climb.le with rfl | lt
    · right
      rw [h.mem_push_push_iff posNext, pushed, climb.state]
      exact .inl (by show _ = (k : Int) + 1; omega)
    · left
      obtain ⟨d, hd, eq⟩ := climb.exists_delivered (Nat.lt_succ_self k) lt
      refine ⟨d, ?_, Int64.toInt_inj.mp (by omega)⟩
      rw [pushed]
      exact List.mem_cons_of_mem f hd
  | restarted _ _ passed =>
    have notRecalled : ¬ s.Recalls f := by
      rintro ⟨-, g, hg, far, -⟩
      have := passed g (List.mem_of_mem_head? hg)
      omega
    refine iff_of_true (.inr ?_) notRecalled
    rw [h.mem_push_push_iff posNext, pushed]
    exact .inl succ
  | @resumed g rest k k' _ far waiting far' number climb =>
    have ahead := h.ahead g (by simp [waiting])
    have near := h.near g (by simp [waiting])
    rcases far with forward | backward
    · have farBehind : g.seq.toInt + resetGap < f.seq.toInt := by
        rw [IsFar] at far'
        omega
      rw [h.flows_iff_far succ forward waiting number climb pushed,
        recalls_iff_near forward waiting farBehind number climb, Int.not_le]
    · have notRecalled : ¬ s.Recalls f := by
        rintro ⟨forward, -⟩
        omega
      refine iff_of_true (.inr ?_) notRecalled
      have le := climb.le
      rw [h.mem_push_push_iff posNext, pushed, climb.state]
      exact .inr (.inr (.inr (by show _ < (k' : Int) - resetGap; omega)))
  | late _ le =>
    rw [pushed] at delivered
    cases delivered
  | held =>
    rw [pushed] at delivered
    cases delivered

end

end Sequencer

open Sequencer

/-- **A delivered frame is followed by the next number, unless the sequence is called back.**
Whatever was done to a sequencer, if a push delivers its frame, then the next number, if there is
one, is delivered along with it or by the next push, except if what waits calls the sequence
back. -/
theorem flows_iff_not_recalls (moves : List Move) {f next : Frame} (pos : 0 < f.seq.toInt)
    (succ : next.seq.toInt = f.seq.toInt + 1)
    (delivered : f ∈ ((empty.run moves).1.push f).2) :
    ((∃ d ∈ ((empty.run moves).1.push f).2, d.seq = next.seq) ∨
        next ∈ (((empty.run moves).1.push f).1.push next).2) ↔
      ¬ (empty.run moves).1.Recalls f :=
  (inWindow_run moves).flows_iff pos succ delivered

/-- What waits far behind a frame, but does not reach up to it, does not stop the flow. -/
theorem flows_iff_not_recalls_sample :
    let s := (empty.run ((sample [2, 3]).map .push)).1
    ((s.push ⟨"price", "null", 1003⟩).2 = sample [1003, 2, 3]) ∧
      ((∃ d ∈ (s.push ⟨"price", "null", 1003⟩).2, d.seq = 1004) ∨
        (⟨"price", "null", 1004⟩ : Frame)
          ∈ ((s.push ⟨"price", "null", 1003⟩).1.push ⟨"price", "null", 1004⟩).2) := by
  refine ⟨by decide, ?_⟩
  have flows := flows_iff_not_recalls ((sample [2, 3]).map .push) (f := ⟨"price", "null", 1003⟩)
    (by decide) (show (⟨"price", "null", 1004⟩ : Frame).seq.toInt = _ by decide) (by decide)
  refine flows.mpr ?_
  rintro ⟨-, g, hg, -, all⟩
  obtain rfl : ⟨"price", "null", 2⟩ = g := Option.some.inj hg
  obtain ⟨d, hd, eq⟩ := all 4 (by decide) (by decide)
  have none_four : ∀ d ∈ sample [2, 3], d.seq.toInt ≠ 4 := by decide
  exact none_four d hd eq

/-- One number more, and the sequence is called back: after the jump to 1003 the next number is not
delivered, though it comes in order. -/
theorem recalled_sequence_stalls :
    let s := (empty.run ((sample [2, 3, 4]).map .push)).1
    (s.push ⟨"price", "null", 1003⟩).2 = sample [1003, 2, 3, 4] ∧
      ((s.push ⟨"price", "null", 1003⟩).1.push ⟨"price", "null", 1004⟩).2 = [] ∧
      ¬ ∀ (moves : List Move) (f next : Frame), 0 < f.seq.toInt →
        next.seq.toInt = f.seq.toInt + 1 → f ∈ ((empty.run moves).1.push f).2 →
        (empty.run moves).1.Flows f next := by
  refine ⟨by decide, by decide, fun always => ?_⟩
  have flows := always ((sample [2, 3, 4]).map .push) ⟨"price", "null", 1003⟩
    ⟨"price", "null", 1004⟩ (by decide) (by decide) (by decide)
  rcases flows with ⟨d, hd, eq⟩ | along
  · have none_along : ∀ d ∈ sample [1003, 2, 3, 4], d.seq ≠ 1004 := by decide
    exact none_along d hd eq
  · cases along

end MarketStream.Reorder
