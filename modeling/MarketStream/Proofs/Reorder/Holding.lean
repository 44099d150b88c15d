import Mathlib.Data.List.Perm.Basic
import MarketStream.Proofs.Reorder.Lanes

/-!
# A window holds what is not older

Frames wait in a window as they came, and are put in order only when it moves up. At any time,
nevertheless, those that wait are exactly those whose time lies in the window: of the frames that
came since the last flush, the older ones have been released, and no other has.

* `Account` — what came and what was released since the last flush; `DelayWindow.account`;
* `Kept` — a window and its account agree; `Kept.holding`, `Kept.advance` — what keeps it so;
* `Kept.push`, `Kept.run` — after every move they still do;
* `holds_exactly_the_window` — what a window holds after any run.
-/

namespace MarketStream.Reorder

open Sequencer (Move)

/-- In a list whose items that pass come before all others, the front of those that pass is all of
them. -/
theorem takeWhile_dropWhile_eq_filter {α : Type} {p : α → Bool} {l : List α}
    (first : l.Pairwise fun a b => p b = true → p a = true) :
    l.takeWhile p = l.filter p ∧ l.dropWhile p = l.filter fun a => !p a := by
  induction l with
  | nil => exact ⟨rfl, rfl⟩
  | cons a rest ih =>
    obtain ⟨before, rest_first⟩ := List.pairwise_cons.mp first
    obtain ⟨taken, dropped⟩ := ih rest_first
    by_cases passes : p a = true
    · simp [passes, taken, dropped]
    · have none_passes : ∀ b ∈ rest, ¬ p b = true := fun b hb pb => passes (before b hb pb)
      have all_stay : rest.filter (fun b => !p b) = rest :=
        List.filter_eq_self.mpr (by simpa using none_passes)
      simpa [passes, all_stay] using none_passes

/-- What a stronger test refuses is what a weaker one refuses and what it refuses of the rest. -/
theorem filter_not_perm {α : Type} {p q : α → Bool} (stronger : ∀ a, q a = true → p a = true)
    (l : List α) :
    ((l.filter fun a => !p a) ++ (l.filter p).filter fun a => !q a).Perm
      (l.filter fun a => !q a) := by
  have refused : (l.filter fun a => !q a).filter (fun a => !p a) = l.filter fun a => !p a := by
    rw [List.filter_filter]
    refine List.filter_congr fun a _ => ?_
    cases qa : q a with
    | true => simp [stronger a qa]
    | false => simp
  have rest : (l.filter fun a => !q a).filter p = (l.filter p).filter fun a => !q a := by
    rw [List.filter_filter, List.filter_filter]
    exact List.filter_congr fun a _ => Bool.and_comm ..
  have parts := List.filter_append_perm p (l.filter fun a => !q a)
  rw [refused, rest] at parts
  exact List.perm_append_comm.trans parts

/-! ## Accounts -/

/-- What came and what was released since a window was last flushed, sequenced frames aside. -/
structure Account where
  /-- The frames that came, each with the time it was given on arrival. -/
  came : List Timed
  /-- The frames that were released. -/
  released : List Frame

/-- The account after one more move. -/
def Account.after (a : Account) (w : DelayWindow) : Move → Account
  | .push f =>
    ⟨a.came ++ if isSequenced f then [] else [stamp w.highWater f],
      a.released ++ (w.push f).2.filter fun g => !isSequenced g⟩
  | .flush => ⟨[], []⟩

/-- The account after a run that starts with an account. -/
def DelayWindow.account (w : DelayWindow) (a : Account) : List Move → Account
  | [] => a
  | m :: rest => (w.act m).1.account (a.after w m) rest

/-! ## Windows that agree with their account -/

namespace DelayWindow

variable {w : DelayWindow} {a : Account} {t : Timed} {f : Frame}

/-- A window without its sequenced frames. -/
def alone (w : DelayWindow) : DelayWindow := w.withSequencer .empty

/-- The time lies in the window, as far as it reaches back. -/
def reaches (w : DelayWindow) (t : Timed) : Bool := decide (w.highWater - w.delay ≤ t.time)

theorem reaches_iff : w.reaches t = true ↔ w.highWater - w.delay ≤ t.time := decide_eq_true_iff

/-- What waits is what came and lies in the window, and what was released is the rest. -/
structure Kept (w : DelayWindow) (a : Account) : Prop where
  /-- No time is negative. -/
  nonneg : ∀ t ∈ a.came, 0 ≤ t.time
  /-- What lies in the window waits. -/
  waiting : w.waiting.Perm (a.came.filter w.reaches)
  /-- What is older has been released. -/
  released : a.released.Perm ((a.came.filter fun t => !w.reaches t).map Timed.frame)

namespace Kept

theorem holding (h : w.Kept a) (nonneg : 0 ≤ t.time) (onTime : w.reaches t = true) :
    (w.holding t).Kept ⟨a.came ++ [t], a.released⟩ := by
  have reaches : (w.holding t).reaches = w.reaches := rfl
  refine ⟨List.forall_mem_append.mpr ⟨h.nonneg, by simpa using nonneg⟩, ?_, ?_⟩
  · rw [reaches, List.filter_append, List.filter_cons_of_pos onTime]
    exact h.waiting.append_right [t]
  · rw [reaches, List.filter_append, List.filter_cons_of_neg (by simp [onTime]), List.filter_nil,
      List.append_nil]
    exact h.released

/-- A frame that is older than the window passes through. -/
theorem passing (h : w.Kept a) (nonneg : 0 ≤ t.time) (early : w.reaches t = false) :
    w.Kept ⟨a.came ++ [t], a.released ++ [t.frame]⟩ := by
  refine ⟨List.forall_mem_append.mpr ⟨h.nonneg, by simpa using nonneg⟩, ?_, ?_⟩
  · rw [List.filter_append, List.filter_cons_of_neg (by simp [early]), List.filter_nil,
      List.append_nil]
    exact h.waiting
  · rw [List.filter_append, List.filter_cons_of_pos (by simp [early]), List.map_append]
    exact h.released.append_right [t.frame]

/-- When the window moves up, what it leaves behind is released. -/
theorem advance (h : w.Kept a) {time : Int} (le : w.highWater ≤ time) (delay_nonneg : 0 ≤ w.delay)
    (nonneg : 0 ≤ time) (bound : time ≤ Int64.maxValue.toInt) :
    (w.advance time).1.Kept ⟨a.came, a.released ++ (w.advance time).2⟩ := by
  let moved : DelayWindow := { w with highWater := time }
  have steady : moved.alone.Steady := ⟨delay_nonneg, nonneg, bound, rfl⟩
  let isOld (t : Timed) : Bool := decide (t.time < moved.cutoff)
  have further : ∀ t, moved.reaches t = true → w.reaches t = true := by
    intro t ht
    rw [reaches_iff] at ht ⊢
    have : time - w.delay ≤ t.time := ht
    omega
  have sorted_perm : (sorted w.waiting).Perm (a.came.filter w.reaches) :=
    (List.mergeSort_perm ..).trans h.waiting
  -- What is old is what the moved window does not reach.
  have old : ∀ t ∈ sorted w.waiting, isOld t = !moved.reaches t := by
    intro t ht
    have came : t ∈ a.came := (List.mem_filter.mp (sorted_perm.mem_iff.mp ht)).1
    have iff : t.time < moved.cutoff ↔ t.time < moved.highWater - moved.delay :=
      steady.lt_cutoff_iff (h.nonneg t came)
    rw [reaches, Bool.eq_iff_iff, decide_eq_true_iff, iff, Bool.not_eq_true',
      decide_eq_false_iff_not, Int.not_le]
  have inOrder : (sorted w.waiting).Pairwise fun a b => isOld b = true → isOld a = true := by
    refine (ranking_inOrder.pairwise_mergeSort w.waiting).imp ?_
    intro a b le old
    have le : a.time < b.time ∨ a.time = b.time ∧ a.volume ≤ b.volume := of_decide_eq_true le
    have old : b.time < moved.cutoff := of_decide_eq_true old
    exact decide_eq_true (by omega)
  obtain ⟨taken, left⟩ := takeWhile_dropWhile_eq_filter inOrder
  have waiting : (w.advance time).1.waiting = (sorted w.waiting).filter moved.reaches :=
    left.trans (List.filter_congr fun t ht => by rw [old t ht, Bool.not_not])
  have released : (w.advance time).2
      = ((sorted w.waiting).filter fun t => !moved.reaches t).map Timed.frame :=
    congrArg (List.map Timed.frame) (taken.trans (List.filter_congr old))
  refine ⟨h.nonneg, ?_, ?_⟩
  · have both : (a.came.filter w.reaches).filter moved.reaches = a.came.filter moved.reaches := by
      rw [List.filter_filter]
      refine List.filter_congr fun t _ => ?_
      cases reached : moved.reaches t with
      | true => rw [further t reached, Bool.and_self]
      | false => rfl
    rw [waiting]
    exact (sorted_perm.filter _).trans (.of_eq both)
  · rw [released]
    refine (h.released.append ((sorted_perm.filter _).map _)).trans ?_
    rw [← List.map_append]
    exact (filter_not_perm further a.came).map _

theorem withSequencer (h : w.Kept a) (s : Sequencer) : (w.withSequencer s).Kept a :=
  ⟨h.nonneg, h.waiting, h.released⟩

end Kept

/-! ## Every run keeps its account -/

theorem Steady.actOwn (h : w.Steady) (m : Move) : (w.actOwn m).1.Steady := by
  rw [DelayWindow.actOwn]
  split
  · next own =>
    cases m with
    | push f =>
      have other : isSequenced f = false := by simpa [Move.isTimed] using own
      exact h.push (isSequenced_eq_false.mp other)
    | flush => exact ⟨h.delay_nonneg, h.nonneg, h.bound, by rw [act, flush, h.idle]; rfl⟩
  · exact h

/-- The window is in a state that a run leads to. -/
structure Ready (w : DelayWindow) : Prop where
  /-- Its sequencer and the rest of it keep to their lanes. -/
  lanes : Lanes w.sequencer w.alone
  /-- The rest of it is what it would be without sequenced frames. -/
  steady : w.alone.Steady

theorem ready_empty {delay : Int} (nonneg : 0 ≤ delay) : (empty delay).Ready :=
  ⟨.empty delay, steady_empty nonneg⟩

namespace Ready

/-- What a move does, lane by lane. -/
theorem act_eq (h : w.Ready) (m : Move) :
    w.act m = ((w.alone.actOwn m).1.withSequencer (w.sequencer.actOwn m).1,
      (w.sequencer.actOwn m).2 ++ (w.alone.actOwn m).2) :=
  (h.lanes.act m).1

theorem act (h : w.Ready) (m : Move) : (w.act m).1.Ready := by
  obtain ⟨-, -, -, lanes⟩ := h.lanes.act m
  have same : (w.act m).1.alone = (w.alone.actOwn m).1 := by
    rw [h.act_eq]
    show (w.alone.actOwn m).1.withSequencer .empty = _
    rw [← lanes.idle]
    rfl
  refine ⟨?_, ?_⟩
  · rw [same, h.act_eq]
    exact lanes
  · rw [same]
    exact h.steady.actOwn m

/-- A sequenced frame leaves the window's own lane as it is. -/
theorem push_of_isSequenced (h : w.Ready) (own : isSequenced f = true) :
    w.push f = (w.withSequencer (w.sequencer.push f).1, (w.sequencer.push f).2) ∧
      (w.push f).2.filter (fun g => !isSequenced g) = [] := by
  have eq : w.push f = _ := DelayWindow.push_of_isSequenced (w := w) own w.sequencer
  refine ⟨eq, ?_⟩
  rw [eq, List.filter_eq_nil_iff]
  intro g hg
  rw [h.lanes.inWindow.isSequenced_of_mem_push own hg]
  decide

/-- Any other frame releases no sequenced one. -/
theorem filter_push (h : w.Ready) (other : isSequenced f = false) :
    (w.push f).2.filter (fun g => !isSequenced g) = (w.push f).2 := by
  have timely : w.Timely := h.lanes.timely
  refine List.filter_eq_self.mpr fun g hg => ?_
  rw [(timely.push other).2 g hg]
  rfl

/-- When a frame is too late to wait. -/
theorem early_iff (h : w.Ready) (f : Frame) :
    (stamp w.highWater f).time < w.cutoff ↔ w.reaches (stamp w.highWater f) = false := by
  have iff := h.steady.lt_cutoff_iff (stamp_time_nonneg h.steady.nonneg f)
  rw [reaches, decide_eq_false_iff_not, Int.not_le]
  exact iff

end Ready

/-- A push of a frame outside any sequence keeps the account. -/
theorem Kept.push (h : w.Kept a) (ready : w.Ready) (other : isSequenced f = false) :
    (w.push f).1.Kept ⟨a.came ++ [stamp w.highWater f], a.released ++ (w.push f).2⟩ := by
  have steady := ready.steady
  have highWater_nonneg : 0 ≤ w.highWater := steady.nonneg
  have nonneg := stamp_time_nonneg highWater_nonneg f
  by_cases early : (stamp w.highWater f).time < w.cutoff
  · have passing := h.passing nonneg ((ready.early_iff f).mp early)
    rw [push_of_early other early]
    rwa [frame_stamp] at passing
  have onTime : w.reaches (stamp w.highWater f) = true := by
    rw [← Bool.not_eq_false]
    exact fun late => early ((ready.early_iff f).mpr late)
  have held := h.holding nonneg onTime
  by_cases newer : w.highWater < (stamp w.highWater f).time
  · rw [push_of_newer other early newer]
    have bound : w.highWater ≤ Int64.maxValue.toInt := steady.bound
    exact held.advance (Int.le_of_lt newer) steady.delay_nonneg nonneg (stamp_time_le bound f)
  · rw [push_of_held other early newer, List.append_nil]
    exact held

/-- Every move keeps the account. -/
theorem Kept.act (h : w.Kept a) (ready : w.Ready) (m : Move) :
    (w.act m).1.Kept (a.after w m) := by
  cases m with
  | push f =>
    cases own : isSequenced f with
    | true =>
      obtain ⟨eq, nothing⟩ := ready.push_of_isSequenced own
      rw [Account.after, nothing, if_pos own, List.append_nil, List.append_nil, DelayWindow.act, eq]
      exact h.withSequencer _
    | false =>
      rw [Account.after, ready.filter_push own, if_neg (by simp [own])]
      exact h.push ready own
  | flush => exact ⟨by simp [Account.after], .refl _, .refl _⟩

/-- So does every run. -/
theorem Kept.run (h : w.Kept a) (ready : w.Ready) (moves : List Move) :
    (w.run moves).1.Kept (w.account a moves) ∧ (w.run moves).1.Ready := by
  induction moves generalizing w a with
  | nil => exact ⟨h, ready⟩
  | cons m rest ih => exact ih (h.act ready m) (ready.act m)

/-- The length of the window stays. -/
theorem delay_act (w : DelayWindow) (m : Move) : (w.act m).1.delay = w.delay := by
  cases m with
  | push f =>
    rw [act, push]
    split
    · rfl
    · rw [pushTimed]
      generalize EventTime.ofFrame f = event
      dsimp only
      split
      · rfl
      · split <;> rfl
  | flush => rfl

theorem delay_run (w : DelayWindow) (moves : List Move) : (w.run moves).1.delay = w.delay := by
  induction moves generalizing w with
  | nil => rfl
  | cons m rest ih => exact (ih _).trans (w.delay_act m)

/-! ## The newest time -/

namespace Ready

/-- The newest time is the greatest one so far. -/
theorem highWater_push (h : w.Ready) (other : isSequenced f = false) :
    (w.push f).1.highWater = max w.highWater (stamp w.highWater f).time := by
  have newest := h.steady.highWater_push (isSequenced_eq_false.mp other)
  rw [alone, push_withSequencer other] at newest
  exact newest

/-- It never goes back, and no frame that came since the last flush is newer. -/
theorem le_highWater_act (h : w.Ready) (le : ∀ t ∈ a.came, t.time ≤ w.highWater) (m : Move) :
    w.highWater ≤ (w.act m).1.highWater ∧
      ∀ t ∈ (a.after w m).came, t.time ≤ (w.act m).1.highWater := by
  cases m with
  | push f =>
    rw [Account.after, DelayWindow.act]
    cases own : isSequenced f with
    | true =>
      rw [(h.push_of_isSequenced own).1, if_pos rfl, List.append_nil]
      exact ⟨Int.le_refl _, le⟩
    | false =>
      rw [h.highWater_push own, if_neg Bool.false_ne_true]
      refine ⟨Int.le_max_left .., fun t ht => ?_⟩
      rcases List.mem_append.mp ht with before | last
      · exact Int.le_trans (le t before) (Int.le_max_left ..)
      · rw [List.mem_singleton.mp last]
        exact Int.le_max_right ..
  | flush => exact ⟨Int.le_refl _, by simp [Account.after]⟩

theorem le_highWater_run (h : w.Ready) (le : ∀ t ∈ a.came, t.time ≤ w.highWater)
    (moves : List Move) : ∀ t ∈ (w.account a moves).came, t.time ≤ (w.run moves).1.highWater := by
  induction moves generalizing w a with
  | nil => exact le
  | cons m rest ih => exact ih (h.act m) (h.le_highWater_act le m).2

/-- As long as the newest time stays, nothing that waits is released. -/
theorem waiting_prefix_push (h : w.Ready) (same : (w.push f).1.highWater = w.highWater) :
    w.waiting <+: (w.push f).1.waiting ∧
      (w.push f).2.filter (fun g => !isSequenced g) <+: [f] := by
  cases own : isSequenced f with
  | true =>
    obtain ⟨eq, nothing⟩ := h.push_of_isSequenced own
    rw [nothing, eq]
    exact ⟨List.prefix_rfl, List.nil_prefix⟩
  | false =>
    rw [h.filter_push own]
    rw [h.highWater_push own] at same
    have notNewer : ¬ w.highWater < (stamp w.highWater f).time := by omega
    by_cases early : (stamp w.highWater f).time < w.cutoff
    · rw [push_of_early own early]
      exact ⟨List.prefix_rfl, List.prefix_rfl⟩
    · rw [push_of_held own early notNewer]
      exact ⟨List.prefix_append .., List.nil_prefix⟩

end Ready

end DelayWindow

open DelayWindow

/-- **A window holds exactly what lies in it.** Let any frames, sequenced or not, be pushed into a
window that has seen nothing, of any length that is not negative, and let it be flushed in between,
in any order. Then the newest time never goes back. Every frame that waits has a time in the window
that ends at the newest time. Of the frames that came since the last flush, those with a time in the
window wait, and those that were released are the older ones. And a push that does not move the
newest time releases nothing that waits: it delivers the frame that is pushed, or nothing outside a
sequence. -/
theorem holds_exactly_the_window {delay : Int} (nonneg : 0 ≤ delay) (moves : List Move) :
    let w := ((empty delay).run moves).1
    let since := (empty delay).account ⟨[], []⟩ moves
    (∀ m, w.highWater ≤ (w.act m).1.highWater) ∧
      (∀ t ∈ w.waiting, w.highWater - delay ≤ t.time ∧ t.time ≤ w.highWater) ∧
      w.waiting.Perm (since.came.filter fun t => w.highWater - delay ≤ t.time) ∧
      since.released.Perm
        ((since.came.filter fun t => t.time < w.highWater - delay).map Timed.frame) ∧
      ∀ f, (w.push f).1.highWater = w.highWater →
        w.waiting <+: (w.push f).1.waiting ∧
          (w.push f).2.filter (fun g => !isSequenced g) <+: [f] := by
  intro w since
  have start : (empty delay).Kept ⟨[], []⟩ := ⟨by simp, .refl _, .refl _⟩
  obtain ⟨kept, ready⟩ := start.run (ready_empty nonneg) moves
  have newest : ∀ t ∈ since.came, t.time ≤ w.highWater :=
    (ready_empty nonneg).le_highWater_run (by simp) moves
  have length : w.delay = delay := delay_run _ moves
  have reaches (t : Timed) : w.reaches t = decide (w.highWater - delay ≤ t.time) := by
    rw [DelayWindow.reaches, length]
  have waiting : w.waiting.Perm (since.came.filter fun t => w.highWater - delay ≤ t.time) := by
    rw [← funext reaches]
    exact kept.waiting
  have older (t : Timed) : (!w.reaches t) = decide (t.time < w.highWater - delay) := by
    rw [reaches, ← decide_not, decide_eq_decide, Int.not_le]
  refine ⟨fun m => (ready.le_highWater_act newest m).1, ?_, waiting, ?_, fun f => ?_⟩
  · intro t ht
    obtain ⟨came, inWindow⟩ := List.mem_filter.mp (waiting.mem_iff.mp ht)
    exact ⟨of_decide_eq_true inWindow, newest t came⟩
  · rw [← funext older]
    exact kept.released
  · exact ready.waiting_prefix_push

/-- Quotes, sequenced frames and a flush in between. -/
def sampleMoves : List Move :=
  (timed [(500, 1)]).map Move.push ++ [.push ⟨"price", "null", 2⟩, .flush]
    ++ (timed [(300, 0), (490, 0), (600, 2)]).map Move.push
    ++ [.push ⟨"price", "null", 5⟩] ++ (timed [(560, 3)]).map Move.push

/-- Of the four quotes since the flush the first is too late, the second is released by the third,
and the others lie in the window. -/
theorem holds_exactly_the_window_sample :
    let w := ((empty 100).run sampleMoves).1
    let since := (empty 100).account ⟨[], []⟩ sampleMoves
    (since.came.map Timed.key = [(300, 0), (490, 0), (600, 2), (560, 3)] ∧ w.highWater = 600) ∧
      w.waiting.Perm (since.came.filter fun t => w.highWater - 100 ≤ t.time) := by
  obtain ⟨-, -, waiting, -⟩ := holds_exactly_the_window (by decide : (0 : Int) ≤ 100) sampleMoves
  exact ⟨by decide +kernel, waiting⟩

end MarketStream.Reorder
