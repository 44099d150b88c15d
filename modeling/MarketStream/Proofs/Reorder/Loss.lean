import MarketStream.Proofs.Reorder.Restore
import MarketStream.Proofs.Reorder.Window

/-!
# What is lost

A frame that is ahead of the sequence when it comes is delivered at once or waits, and once the run
has ended with a flush its number has been delivered. There is one way in which it can be lost: a
frame starts the sequence anew ahead of everything that waits and not far from any of it. Everything
that waits then counts as passed and is dropped.

* `Abandons` — a frame whose push drops what waits, and `push_of_abandons` that it does;
* `InWindow.waits_or_delivered` — any other push keeps what waits, or delivers its number;
* `delivered_unless_abandoned` — so does a run that ends with a flush.
-/

namespace MarketStream.Reorder

namespace Sequencer

/-- A frame starts the sequence anew, ahead of what waits but not far from any of it. -/
def Abandons (s : Sequencer) (f : Frame) : Prop :=
  s.lastSent + resetGap < f.seq.toInt ∧ ∀ g ∈ s.waiting, f.seq.toInt ≤ g.seq.toInt + resetGap

/-- A frame that is ahead of the sequence is delivered or waits. -/
theorem mem_push_of_lt {s : Sequencer} {f : Frame} (lt : s.lastSent < f.seq.toInt) :
    f ∈ (s.push f).1.waiting ∨ f ∈ (s.push f).2 := by
  rw [push]
  split
  · exact .inr (List.mem_singleton_self f)
  split
  · exact .inr List.mem_cons_self
  · rw [if_neg (by omega)]
    exact .inl (mem_hold.mpr (.inl rfl))

namespace InWindow

variable {s : Sequencer}

/-- A frame that abandons what waits drops all of it. -/
theorem push_of_abandons (h : s.InWindow) {f : Frame} (abandons : s.Abandons f) :
    s.push f = (⟨[], f.seq.toInt⟩, [f]) := by
  obtain ⟨forward, close⟩ := abandons
  have gap : resetGap = 1000 := rfl
  have nonneg := h.nonneg
  generalize pushed : s.push f = result
  cases pushed ▸ h.pushed f with
  | passed => omega
  | next => omega
  | restarted => rfl
  | @resumed g _ _ _ _ _ waiting far' =>
    have near := h.near g (by simp [waiting])
    have := close g (by simp [waiting])
    rw [IsFar] at far'
    omega
  | late => omega
  | held => omega

/-- Any other push keeps a frame that waits, or delivers its number. -/
theorem waits_or_delivered (h : s.InWindow) {g : Frame} (hg : g ∈ s.waiting) (f : Frame) :
    g ∈ (s.push f).1.waiting ∨ (∃ d ∈ (s.push f).2, d.seq = g.seq) ∨ s.Abandons f := by
  have gap : resetGap = 1000 := rfl
  have ahead := h.ahead g hg
  generalize pushed : s.push f = result
  cases pushed ▸ h.pushed f with
  | passed => exact .inl hg
  | next _ _ le climb =>
    rcases climb.waits_or_passed hg (by omega) with waits | ⟨d, hd, eq⟩
    · exact .inl waits
    · exact .inr (.inl ⟨d, List.mem_cons_of_mem f hd, eq⟩)
  | restarted _ far passed =>
    -- What waits is ahead of the sequence, so the jump over it went forward.
    rcases far with forward | backward
    · exact .inr (.inr ⟨forward, fun d hd => (passed d hd).2⟩)
    · have := passed g hg
      omega
  | @resumed first rest k _ _ _ waiting _ number climb =>
    rcases Int.le_iff_eq_or_lt.mp (h.first_le waiting hg) with same | lt
    · exact .inr (.inl ⟨first, by simp, Int64.toInt_inj.mp same⟩)
    · have mem : g ∈ rest := by
        rcases List.mem_cons.mp (waiting ▸ hg) with rfl | mem
        · omega
        · exact mem
      rcases climb.waits_or_passed mem (by omega) with waits | ⟨d, hd, eq⟩
      · exact .inl waits
      · exact .inr (.inl ⟨d, by simp [hd], eq⟩)
  | late => exact .inl hg
  | held => exact .inl (mem_hold.mpr (.inr hg))

/-- By the end of a run a frame that waits has been delivered, or its number has, or some push
abandoned it. -/
theorem delivered_or_abandoned (h : s.InWindow) {g : Frame} (hg : g ∈ s.waiting)
    (later : List Frame) :
    (∃ d ∈ (s.run (later.map .push ++ [.flush])).2, d.seq = g.seq) ∨
      ∃ between f rest, later = between ++ f :: rest ∧
        g ∈ (s.run (between.map .push)).1.waiting ∧ (s.run (between.map .push)).1.Abandons f := by
  induction later generalizing s with
  | nil => exact .inl ⟨g, by simpa [run_cons, act, Sequencer.flush] using hg, rfl⟩
  | cons f rest ih =>
    rcases h.waits_or_delivered hg f with waits | ⟨d, hd, eq⟩ | abandons
    · rcases ih (h.push f) waits with ⟨d, hd, eq⟩ | ⟨between, f', rest', rfl, still, abandons⟩
      · exact .inl ⟨d, List.mem_append_right _ hd, eq⟩
      · exact .inr ⟨f :: between, f', rest', rfl, still, abandons⟩
    · exact .inl ⟨d, List.mem_append_left _ hd, eq⟩
    · exact .inr ⟨[], f, rest, rfl, hg, abandons⟩

end InWindow

end Sequencer

open Sequencer

theorem inWindow_after (frames : List Frame) : (after frames).InWindow := inWindow_run _

/-- **Nothing is lost that is not abandoned.** Take a run of pushes into a fresh sequencer that ends
with a flush, and a frame in it that was ahead of the sequence when it came. By the end of the run
it has been delivered, or another frame of its number has, unless while it waited a frame started
the sequence anew ahead of everything that waited and not far from any of it; such a frame is
delivered alone, and everything that waited is dropped. -/
theorem delivered_unless_abandoned :
    (∀ (past : List Frame) (f : Frame) (later : List Frame),
      (after past).lastSent < f.seq.toInt →
      (∃ d ∈ (empty.run ((past ++ f :: later).map .push ++ [.flush])).2, d.seq = f.seq) ∨
        ∃ between g rest, later = between ++ g :: rest ∧
          f ∈ (after (past ++ f :: between)).waiting ∧
          (after (past ++ f :: between)).Abandons g) ∧
    ∀ (past : List Frame) (g : Frame), (after past).Abandons g →
      (after past).push g = (⟨[], g.seq.toInt⟩, [g]) := by
  refine ⟨fun past f later ahead => ?_, fun past g => (inWindow_after past).push_of_abandons⟩
  have whole : empty.run ((past ++ f :: later).map .push ++ [.flush])
      = (((after past).run (.push f :: (later.map .push ++ [.flush]))).1,
        delivered past ++ ((after past).run (.push f :: (later.map .push ++ [.flush]))).2) := by
    rw [List.map_append, List.append_assoc, run_append]
    rfl
  rw [whole]
  rcases mem_push_of_lt ahead with waits | out
  · rcases ((inWindow_after past).push f).delivered_or_abandoned waits later with
      ⟨d, hd, eq⟩ | ⟨between, g, rest, rfl, still, abandons⟩
    · exact .inl ⟨d, List.mem_append_right _ (List.mem_append_right _ hd), eq⟩
    · have there : after (past ++ f :: between)
          = (((after past).push f).1.run (between.map .push)).1 := by
        rw [after, List.map_append, run_append]
        rfl
      rw [← there] at still abandons
      exact .inr ⟨between, g, rest, rfl, still, abandons⟩
  · exact .inl ⟨f, List.mem_append_right _ (List.mem_append_left _ out), rfl⟩

/-- A jump far ahead of the first frame that waits loses nothing. -/
theorem delivered_unless_abandoned_sample :
    (after (sample [5])).lastSent < (⟨"price", "null", 3⟩ : Frame).seq.toInt ∧
      ∃ d ∈ (empty.run ((sample [5, 3, 1500]).map .push ++ [.flush])).2, d.seq = 3 := by
  refine ⟨by decide, ?_⟩
  rcases delivered_unless_abandoned.1 (sample [5]) ⟨"price", "null", 3⟩ (sample [1500])
    (by decide) with out | ⟨between, g, rest, later, -, -, close⟩
  · exact out
  · -- Only the jump could abandon what waits, and it is too far ahead.
    obtain ⟨rfl, rfl, -⟩ : between = [] ∧ g = ⟨"price", "null", 1500⟩ ∧ rest = [] := by
      cases between with
      | nil =>
        obtain ⟨rfl, rfl⟩ := List.cons.inj later
        exact ⟨rfl, rfl, rfl⟩
      | cons f between => simp [sample] at later
    exact absurd (close ⟨"price", "null", 3⟩ (.head _)) (by decide)

/-- A frame is lost: 500 waits, 1001 starts the sequence anew, and 500 has been passed. -/
theorem waiting_frame_abandoned :
    (empty.run ((sample [500, 1001]).map .push ++ [.flush])).2 = sample [1001] ∧
      ¬ ∀ (past : List Frame) (f : Frame) (later : List Frame),
        (after past).lastSent < f.seq.toInt →
        ∃ d ∈ (empty.run ((past ++ f :: later).map .push ++ [.flush])).2, d.seq = f.seq := by
  refine ⟨by decide, fun always => ?_⟩
  obtain ⟨d, hd, eq⟩ := always [] ⟨"price", "null", 500⟩ (sample [1001]) (by decide)
  have none_delivered : ∀ d ∈ sample [1001], d.seq ≠ 500 := by decide
  exact none_delivered d hd eq

end MarketStream.Reorder
