import MarketStream.Proofs.Reorder.Window

/-!
# What waits, and in which order

A sequencer holds a frame back for one reason only: its number is ahead of a gap and not far ahead.
What waits is in the order of the numbers. Frames of one number wait in the order in which they
arrived, and they wait together: once one of them has been delivered or dropped, all those before
the next arrival have been.

* `Sequencer.arrivals` — the frames that a run pushes;
* `Sequencer.Latest` — of every number, the last frames that arrived are those that wait;
* `InWindow.latest_push` — what a push does to the frames of one number;
* `waits_in_window` — what waits after any run.
-/

namespace MarketStream.Reorder

open Sequencer

/-- The frames of a number. -/
def ofSeq (n : Int64) (frames : List Frame) : List Frame := frames.filter fun f => f.seq = n

theorem mem_ofSeq {n : Int64} {frames : List Frame} {f : Frame} :
    f ∈ ofSeq n frames ↔ f ∈ frames ∧ f.seq = n := by
  rw [ofSeq, List.mem_filter, decide_eq_true_iff]

theorem ofSeq_eq_nil {n : Int64} {frames : List Frame} (h : ∀ f ∈ frames, f.seq ≠ n) :
    ofSeq n frames = [] := by
  rw [ofSeq, List.filter_eq_nil_iff]
  intro f hf eq
  exact h f hf (of_decide_eq_true eq)

theorem ofSeq_append (n : Int64) (frames frames' : List Frame) :
    ofSeq n (frames ++ frames') = ofSeq n frames ++ ofSeq n frames' :=
  List.filter_append ..

/-- Of the frames beyond a number, those of one number are either all there or none. -/
theorem ofSeq_filter_isBeyond (n : Int64) (k : Nat) (frames : List Frame) :
    ofSeq n (frames.filter (isBeyond k)) = if (k : Int) < n.toInt then ofSeq n frames else [] := by
  rw [ofSeq, List.filter_filter]
  split
  · next beyond =>
    refine List.filter_congr ?_
    intro f _
    by_cases eq : f.seq = n
    · simp [eq, isBeyond, beyond]
    · simp [eq]
  · next notBeyond =>
    rw [List.filter_eq_nil_iff]
    intro f _ both
    obtain ⟨eq, beyond⟩ := Bool.and_eq_true_iff.mp both
    rw [isBeyond_iff, of_decide_eq_true eq] at beyond
    exact notBeyond beyond

namespace Sequencer

/-- The frames that a run pushes, in the order in which they arrive. -/
def arrivals : List Move → List Frame
  | [] => []
  | .push f :: rest => f :: arrivals rest
  | .flush :: rest => arrivals rest

theorem arrivals_append (before after : List Move) :
    arrivals (before ++ after) = arrivals before ++ arrivals after := by
  induction before with
  | nil => rfl
  | cons m rest ih =>
    cases m with
    | push f => exact congrArg (f :: ·) ih
    | flush => exact ih

/-- Of every number, the frames that wait are the last ones that arrived, as they arrived. -/
def Latest (s : Sequencer) (arrived : List Frame) : Prop :=
  ∀ n, ofSeq n s.waiting <:+ ofSeq n arrived

namespace InWindow

variable {s : Sequencer}

/-- A frame whose number does not wait has no like among those that wait. -/
theorem ofSeq_waiting_eq_nil (h : s.InWindow) {n : Int64}
    (outside : n.toInt ≤ s.lastSent ∨ s.lastSent + resetGap < n.toInt) :
    ofSeq n s.waiting = [] := by
  refine ofSeq_eq_nil ?_
  rintro g hg rfl
  have ahead := h.ahead g hg
  have near := h.near g hg
  omega

/-- A push leaves of the frames of a number what waited, with the new frame behind them if it is
one of them, or else nothing. -/
theorem ofSeq_push (h : s.InWindow) (f : Frame) (n : Int64) :
    ofSeq n (s.push f).1.waiting = [] ∨
      ofSeq n (s.push f).1.waiting = ofSeq n s.waiting ++ ofSeq n [f] := by
  have gap : resetGap = 1000 := rfl
  -- A frame that does not join those that wait must not be of the number that is asked for.
  have none_new : f.seq ≠ n → ofSeq n [f] = [] := fun ne => ofSeq_eq_nil (by simpa using ne)
  generalize eq : s.push f = result
  cases eq ▸ h.pushed f with
  | passed unsequenced =>
    by_cases same : f.seq = n
    · left
      have nonneg := h.nonneg
      exact h.ofSeq_waiting_eq_nil (.inl (by rw [← same]; omega))
    · right
      rw [none_new same, List.append_nil]
  | @next k k' number _ _ climb =>
    have le := climb.le
    rw [climb.state, ofSeq_filter_isBeyond]
    split
    · next beyond =>
      have ne : f.seq ≠ n := by
        rintro rfl
        omega
      rw [none_new ne, List.append_nil]
      exact .inr rfl
    · exact .inl rfl
  | restarted => exact .inl rfl
  | @resumed g rest k k' _ far waiting _ number climb =>
    have le := climb.le
    have all : rest.filter (isBeyond k') = s.waiting.filter (isBeyond k') := by
      rw [waiting, List.filter_cons_of_neg (not_isBeyond (by omega))]
    rw [climb.state, all, ofSeq_filter_isBeyond]
    split
    · by_cases same : f.seq = n
      · left
        refine h.ofSeq_waiting_eq_nil ?_
        rw [← same]
        rcases far with forward | backward
        · exact .inr forward
        · exact .inl (by omega)
      · right
        rw [none_new same, List.append_nil]
    · exact .inl rfl
  | late _ le =>
    by_cases same : f.seq = n
    · left
      exact h.ofSeq_waiting_eq_nil (.inl (same ▸ le))
    · right
      rw [none_new same, List.append_nil]
  | held =>
    right
    show ofSeq n (hold f s.waiting) = _
    rw [ofSeq, filter_hold h.ordered]
    by_cases same : f.seq = n
    · have last : ∀ g ∈ ofSeq n s.waiting, g.seq.toInt ≤ f.seq.toInt := by
        intro g hg
        have number : g.seq = f.seq := (mem_ofSeq.mp hg).2.trans same.symm
        exact Int.le_of_eq (congrArg Int64.toInt number)
      rw [if_pos (decide_eq_true same)]
      show hold f (ofSeq n s.waiting) = _
      rw [hold_eq_append last]
      simp [ofSeq, same]
    · rw [if_neg (by simpa using same), none_new same, List.append_nil]
      rfl

/-- So the frames that wait stay the last ones that arrived. -/
theorem latest_push (h : s.InWindow) {arrived : List Frame} (latest : s.Latest arrived)
    (f : Frame) : (s.push f).1.Latest (arrived ++ [f]) := by
  intro n
  rw [ofSeq_append]
  rcases h.ofSeq_push f n with none_left | kept
  · rw [none_left]
    exact List.nil_suffix
  · obtain ⟨before, eq⟩ := latest n
    rw [kept, ← eq, List.append_assoc]
    exact List.suffix_append before _

end InWindow

theorem latest_run (moves : List Move) : (empty.run moves).1.Latest (arrivals moves) := by
  induction moves using List.reverseRecOn with
  | nil => exact fun n => List.suffix_rfl
  | append_singleton before m ih =>
    rw [run_snoc, arrivals_append]
    cases m with
    | push f => exact (inWindow_run before).latest_push ih f
    | flush => exact fun n => List.nil_suffix

/-- What waits is not due. -/
theorem InWindow.isNext_eq_false {s : Sequencer} (h : s.InWindow) {g : Frame}
    (hg : g ∈ s.waiting) : isNext s.lastSent g.seq.toInt = false := by
  rw [← Bool.not_eq_true, h.isNext_iff, IsFar]
  have ahead := h.ahead g hg
  have near := h.near g hg
  rintro (next | ⟨-, same⟩ | forward | backward)
  · omega
  · omega
  · omega
  · rw [resetGap] at *
    omega

end Sequencer

/-- **What waits after any run.** Whatever was pushed and flushed, the sequence stands at zero or
above; what waits is in the order of the numbers, and the frames of one number are the last ones
that arrived, in the order in which they did; and every number that waits is beyond the next one
and at most 1000 ahead. So nothing waits that is due, that the sequence has passed, or that is out
of its window. -/
theorem waits_in_window (moves : List Move) :
    let s := (empty.run moves).1
    0 ≤ s.lastSent ∧
      (s.waiting.Pairwise fun f g => f.seq.toInt ≤ g.seq.toInt) ∧
      (∀ n : Int64, (s.waiting.filter fun f => f.seq = n)
        <:+ (arrivals moves).filter fun f => f.seq = n) ∧
      ∀ w ∈ s.waiting, s.lastSent + 1 < w.seq.toInt ∧ w.seq.toInt ≤ s.lastSent + 1000 ∧
        isNext s.lastSent w.seq.toInt = false := by
  intro s
  have h : s.InWindow := inWindow_run moves
  refine ⟨h.nonneg, h.ordered, latest_run moves, ?_⟩
  intro w hw
  exact ⟨h.ahead w hw, h.near w hw, h.isNext_eq_false hw⟩

end MarketStream.Reorder
