import MarketStream.Proofs.Reorder.Release
import MarketStream.Proofs.Reorder.Window

/-!
# Two lanes through a window

A window takes in sequenced frames and others, in any order, and delivers both. It is two machines
side by side: a sequencer that takes in the sequenced frames, and a window whose own sequencer stays
idle that takes in the others. A push is a matter of one of the lanes, a flush of both, and neither
lane can tell what happens in the other.

* `DelayWindow.act`, `DelayWindow.run` — runs of a window, with everything they deliver;
* `Sequencer.actOwn`, `DelayWindow.actOwn` — what a lane does at a move;
* `Lanes` — a sequencer and a window side by side; `Lanes.act` — a move is made lane by lane;
* `Lanes.run` — so are runs;
* `lanes_kept_apart` — runs of a window that has seen nothing.
-/

namespace MarketStream.Reorder

open Sequencer (Move)

theorem isSequenced_eq_false {f : Frame} : isSequenced f = false ↔ f.seq.toInt ≤ 0 := by
  rw [isSequenced, decide_eq_false_iff_not, Int.not_lt]

namespace DelayWindow

/-! ## Runs of a window -/

/-- Makes a move, and gives what it delivers. -/
def act (w : DelayWindow) : Move → DelayWindow × List Frame
  | .push f => w.push f
  | .flush => w.flush

/-- Makes moves one after another, and gives everything they deliver. -/
def run (w : DelayWindow) : List Move → DelayWindow × List Frame
  | [] => (w, [])
  | m :: rest => (((w.act m).1.run rest).1, (w.act m).2 ++ ((w.act m).1.run rest).2)

theorem run_cons (w : DelayWindow) (m : Move) (rest : List Move) :
    w.run (m :: rest) = (((w.act m).1.run rest).1, (w.act m).2 ++ ((w.act m).1.run rest).2) := rfl

/-! ## What a push does, whatever waits in the sequence -/

/-- A window with another sequencer. -/
def withSequencer (w : DelayWindow) (s : Sequencer) : DelayWindow := { w with sequencer := s }

/-- A window with one more frame that waits. -/
def holding (w : DelayWindow) (t : Timed) : DelayWindow := { w with waiting := w.waiting ++ [t] }

variable {w : DelayWindow} {f : Frame}

/-- A sequenced frame is a matter of the sequencer alone. -/
theorem push_of_isSequenced (own : isSequenced f = true) (s : Sequencer) :
    (w.withSequencer s).push f = (w.withSequencer (s.push f).1, (s.push f).2) := by
  rw [push, if_pos (of_decide_eq_true own)]
  rfl

theorem push_of_early (other : isSequenced f = false)
    (early : (stamp w.highWater f).time < w.cutoff) : w.push f = (w, [f]) := by
  rw [push_eq w (isSequenced_eq_false.mp other), if_pos early, frame_stamp]

theorem push_of_held (other : isSequenced f = false)
    (onTime : ¬ (stamp w.highWater f).time < w.cutoff)
    (notNewer : ¬ w.highWater < (stamp w.highWater f).time) :
    w.push f = (w.holding (stamp w.highWater f), []) := by
  rw [push_eq w (isSequenced_eq_false.mp other), if_neg onTime]
  exact if_neg notNewer

theorem push_of_newer (other : isSequenced f = false)
    (onTime : ¬ (stamp w.highWater f).time < w.cutoff)
    (newer : w.highWater < (stamp w.highWater f).time) :
    w.push f = (w.holding (stamp w.highWater f)).advance (stamp w.highWater f).time := by
  rw [push_eq w (isSequenced_eq_false.mp other), if_neg onTime]
  exact if_pos newer

/-- Any other frame has nothing to do with the sequencer. -/
theorem push_withSequencer (other : isSequenced f = false) (s : Sequencer) :
    (w.withSequencer s).push f = ((w.push f).1.withSequencer s, (w.push f).2) := by
  by_cases early : (stamp w.highWater f).time < w.cutoff
  · rw [push_of_early other early]
    exact push_of_early (w := w.withSequencer s) other early
  by_cases newer : w.highWater < (stamp w.highWater f).time
  · rw [push_of_newer other early newer]
    exact push_of_newer (w := w.withSequencer s) other early newer
  · rw [push_of_held other early newer]
    exact push_of_held (w := w.withSequencer s) other early newer

theorem sequencer_push (other : isSequenced f = false) :
    (w.push f).1.sequencer = w.sequencer := by
  have same : w.push f = ((w.push f).1.withSequencer w.sequencer, (w.push f).2) :=
    push_withSequencer other w.sequencer
  exact congrArg (fun r => r.1.sequencer) same

/-! ## Frames of the window's own lane -/

/-- Only frames outside any sequence wait in the window. -/
def Timely (w : DelayWindow) : Prop := ∀ t ∈ w.waiting, isSequenced t.frame = false

theorem Timely.holding (h : w.Timely) {t : Timed} (other : isSequenced t.frame = false) :
    (w.holding t).Timely := by
  intro a ha
  rcases List.mem_append.mp ha with ha | ha
  · exact h a ha
  · rw [List.mem_singleton.mp ha]
    exact other

/-- When the window moves up, what is released waited before, and so did what waits on. -/
theorem Timely.advance (h : w.Timely) (time : Int) :
    (w.advance time).1.Timely ∧ ∀ g ∈ (w.advance time).2, isSequenced g = false := by
  refine ⟨fun t ht => ?_, fun g hg => ?_⟩
  · exact h t (List.mem_mergeSort.mp ((List.dropWhile_sublist _).mem ht))
  · obtain ⟨t, ht, rfl⟩ := List.mem_map.mp hg
    exact h t (List.mem_mergeSort.mp ((List.takeWhile_sublist _).mem ht))

theorem Timely.push (h : w.Timely) (other : isSequenced f = false) :
    (w.push f).1.Timely ∧ ∀ g ∈ (w.push f).2, isSequenced g = false := by
  have arrives : isSequenced (stamp w.highWater f).frame = false := by
    rw [frame_stamp]
    exact other
  by_cases early : (stamp w.highWater f).time < w.cutoff
  · rw [push_of_early other early]
    exact ⟨h, by simpa using other⟩
  by_cases newer : w.highWater < (stamp w.highWater f).time
  · rw [push_of_newer other early newer]
    exact (h.holding arrives).advance _
  · rw [push_of_held other early newer]
    exact ⟨h.holding arrives, by simp⟩

end DelayWindow

/-! ## Frames of the sequencer's lane -/

namespace Sequencer.InWindow

variable {s : Sequencer} {f g : Frame}

/-- What waits in a sequence is sequenced. -/
theorem isSequenced_of_mem (h : s.InWindow) (hg : g ∈ s.waiting) : isSequenced g = true := by
  have nonneg := h.nonneg
  have ahead := h.ahead g hg
  exact decide_eq_true (by omega)

theorem isSequenced_of_mem_push (h : s.InWindow) (own : isSequenced f = true)
    (hg : g ∈ (s.push f).2) : isSequenced g = true := by
  rcases mem_of_mem_push (.inl hg) with rfl | waited
  · exact own
  · exact h.isSequenced_of_mem waited

end Sequencer.InWindow

/-! ## What a lane does at a move -/

namespace Sequencer

/-- A move of the sequence: a push of a sequenced frame, or a flush. -/
def Move.isSequenced : Move → Bool
  | .push f => Reorder.isSequenced f
  | .flush => true

/-- A move of the other frames: a push of a frame outside any sequence, or a flush. -/
def Move.isTimed : Move → Bool
  | .push f => !Reorder.isSequenced f
  | .flush => true

/-- Makes a move of the sequence, and passes over others. -/
def actOwn (s : Sequencer) (m : Move) : Sequencer × List Frame :=
  if m.isSequenced then s.act m else (s, [])

/-- The first of some moves is made if it is one of the sequence. -/
theorem run_filter_cons (s : Sequencer) (m : Move) (rest : List Move) :
    s.run ((m :: rest).filter Move.isSequenced) =
      (((s.actOwn m).1.run (rest.filter Move.isSequenced)).1,
        (s.actOwn m).2 ++ ((s.actOwn m).1.run (rest.filter Move.isSequenced)).2) := by
  rw [List.filter_cons, actOwn]
  split <;> rfl

end Sequencer

namespace DelayWindow

/-- Makes a move of the frames outside any sequence, and passes over others. -/
def actOwn (w : DelayWindow) (m : Move) : DelayWindow × List Frame :=
  if m.isTimed then w.act m else (w, [])

/-- The first of some moves is made if it is one of the other frames. -/
theorem run_filter_cons (w : DelayWindow) (m : Move) (rest : List Move) :
    w.run ((m :: rest).filter Move.isTimed) =
      (((w.actOwn m).1.run (rest.filter Move.isTimed)).1,
        (w.actOwn m).2 ++ ((w.actOwn m).1.run (rest.filter Move.isTimed)).2) := by
  rw [List.filter_cons, actOwn]
  split <;> rfl

end DelayWindow

/-! ## Side by side -/

/-- A sequencer beside a window whose own sequencer is idle, each with frames of its own lane. -/
structure Lanes (s : Sequencer) (w : DelayWindow) : Prop where
  /-- What waits in the sequence is in its window. -/
  inWindow : s.InWindow
  /-- Only other frames wait in the window. -/
  timely : w.Timely
  /-- No frame has come to the window's own sequencer. -/
  idle : w.sequencer = .empty

namespace Lanes

theorem empty (delay : Int) : Lanes .empty (.empty delay) where
  inWindow := Sequencer.inWindow_empty
  timely _ h := by cases h
  idle := rfl

variable {s : Sequencer} {w : DelayWindow}

/-- **A move is made lane by lane.** Each lane makes it if it is one of its own. What is delivered
is what the sequencer delivers and then what the window does, each only frames of its own lane, and
both stay side by side. -/
theorem act (h : Lanes s w) (m : Move) :
    (w.withSequencer s).act m
        = ((w.actOwn m).1.withSequencer (s.actOwn m).1, (s.actOwn m).2 ++ (w.actOwn m).2) ∧
      (∀ g ∈ (s.actOwn m).2, isSequenced g = true) ∧
      (∀ g ∈ (w.actOwn m).2, isSequenced g = false) ∧
      Lanes (s.actOwn m).1 (w.actOwn m).1 := by
  cases m with
  | push f =>
    cases own : isSequenced f with
    | true =>
      have sequencer : s.actOwn (.push f) = s.push f := if_pos own
      have window : w.actOwn (.push f) = (w, []) := if_neg (by simp [Move.isTimed, own])
      rw [sequencer, window, List.append_nil]
      refine ⟨DelayWindow.push_of_isSequenced own s, ?_, by simp, ?_⟩
      · exact fun g => h.inWindow.isSequenced_of_mem_push own
      · exact ⟨h.inWindow.push f, h.timely, h.idle⟩
    | false =>
      have sequencer : s.actOwn (.push f) = (s, []) := if_neg (by simp [Move.isSequenced, own])
      have window : w.actOwn (.push f) = w.push f := if_pos (by simp [Move.isTimed, own])
      obtain ⟨timely, out⟩ := h.timely.push own
      rw [sequencer, window, List.nil_append]
      refine ⟨DelayWindow.push_withSequencer own s, by simp, out, h.inWindow, timely, ?_⟩
      rw [DelayWindow.sequencer_push own, h.idle]
  | flush =>
    have sequencer : s.actOwn .flush = s.flush := if_pos rfl
    have window : w.actOwn .flush = w.flush := if_pos rfl
    have flushed : w.flush
        = ({ w with waiting := [] }, (DelayWindow.sorted w.waiting).map Timed.frame) := by
      cases w
      cases h.idle
      rfl
    rw [sequencer, window, flushed]
    refine ⟨rfl, ?_, ?_, h.inWindow.flush, by simp [DelayWindow.Timely], h.idle⟩
    · exact fun g hg => h.inWindow.isSequenced_of_mem hg
    · intro g hg
      obtain ⟨t, ht, rfl⟩ := List.mem_map.mp hg
      exact h.timely t (List.mem_mergeSort.mp ht)

/-- So are runs. -/
theorem run (h : Lanes s w) (moves : List Move) :
    let mixed := (w.withSequencer s).run moves
    let sequenced := s.run (moves.filter Move.isSequenced)
    let timed := w.run (moves.filter Move.isTimed)
    mixed.1 = timed.1.withSequencer sequenced.1 ∧
      mixed.2.filter isSequenced = sequenced.2 ∧
      mixed.2.filter (fun f => !isSequenced f) = timed.2 ∧
      Lanes sequenced.1 timed.1 := by
  induction moves generalizing s w with
  | nil => exact ⟨rfl, rfl, rfl, h⟩
  | cons m rest ih =>
    obtain ⟨step, sequenced, timed, beside⟩ := h.act m
    obtain ⟨state, own, other, beside'⟩ := ih beside
    intro mixed sequenced' timed'
    have mixed_eq : mixed = _ := DelayWindow.run_cons ..
    have sequenced_eq : sequenced' = _ := Sequencer.run_filter_cons ..
    have timed_eq : timed' = _ := DelayWindow.run_filter_cons ..
    rw [step] at mixed_eq
    rw [mixed_eq, sequenced_eq, timed_eq]
    refine ⟨state, ?_, ?_, beside'⟩
    · rw [← own, List.filter_append, List.filter_append, List.filter_eq_self.mpr sequenced,
        List.filter_eq_nil_iff.mpr (by simpa using timed), List.append_nil]
    · rw [← other, List.filter_append, List.filter_append,
        List.filter_eq_nil_iff.mpr (by simpa using sequenced),
        List.filter_eq_self.mpr (by simpa using timed), List.nil_append]

end Lanes

/-- **Sequenced frames and others do not disturb each other.** Let any frames, sequenced or not, be
pushed into a window that has seen nothing, and let it be flushed in between, in any order. What it
delivers of sequenced frames is what a sequencer delivers that gets only these and the flushes; what
it delivers of the others is what a window of the same length delivers that gets only those and the
flushes; and it is in the state of that window, with the sequencer in the state of the other one,
so that it holds as many frames as both together. -/
theorem lanes_kept_apart (delay : Int) (moves : List Move) :
    let mixed := (DelayWindow.empty delay).run moves
    let sequenced := Sequencer.empty.run (moves.filter Move.isSequenced)
    let timed := (DelayWindow.empty delay).run (moves.filter Move.isTimed)
    mixed.2.filter isSequenced = sequenced.2 ∧
      mixed.2.filter (fun f => !isSequenced f) = timed.2 ∧
      mixed.1 = { timed.1 with sequencer := sequenced.1 } ∧
      mixed.1.pending = sequenced.1.pending + timed.1.pending := by
  intro mixed sequenced timed
  have beside := Lanes.empty delay
  obtain ⟨state, own, other, apart⟩ := beside.run moves
  have state : mixed.1 = timed.1.withSequencer sequenced.1 := state
  have idle : timed.1.sequencer = .empty := apart.idle
  refine ⟨own, other, state, ?_⟩
  rw [state, DelayWindow.pending, DelayWindow.pending, idle]
  exact Nat.add_comm ..

end MarketStream.Reorder
