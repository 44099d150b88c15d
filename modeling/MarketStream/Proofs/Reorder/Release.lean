import Mathlib.Data.List.Basic
import MarketStream.Reorder.DelayWindow
import MarketStream.Proofs.StableOrder

/-!
# Frames are released in order of time

A window sorts what it holds and releases the front of it, again and again, while frames still come
in. The order is nevertheless that of one sort at the end. A released frame is older than the
window, and the window only moves up; so a frame that comes later either is not before it, or is
too late to be sorted at all.

* `stamp` — the time and the volume that a frame is given on arrival;
* `Taken`, `push_taken` — everything that a push can do;
* `turns` — the pushes one after another, each with what it delivers;
* `cutoff_le_of_onTime` — what is still to come is not before the window;
* `releases_in_order` — what is delivered until a flush, and in which order.
-/

namespace MarketStream.Reorder

/-- The numbers that a held frame is put in order by. -/
def Timed.key (t : Timed) : Int × Int := (t.time, t.volume)

/-- By the time of the event, then by the volume traded so far. -/
def Timed.inOrder (a b : Timed) : Bool := keyLE a.key b.key

theorem ranking_inOrder : Ranking Timed.inOrder := ranking_of_key Timed.key

theorem sorted_eq (frames : List Timed) :
    DelayWindow.sorted frames = frames.mergeSort Timed.inOrder := rfl

/-- The time that a frame is given on arrival, when the newest time seen is `newest`: that of its
quote if it is positive, else that of its trade if that is positive, else the newest. A payload that
cannot be read gives no time and no volume. -/
def stamp (newest : Int) (f : Frame) : Timed :=
  match f.payload?.bind EventTime.read? with
  | none => ⟨f, newest, 0⟩
  | some e =>
    let time :=
      if 0 < e.tick.toInt then e.tick.toInt
      else if 0 < e.trade.toInt then e.trade.toInt
      else newest
    ⟨f, time, e.volume.toInt⟩

theorem stamp_eq (newest : Int) (f : Frame) : stamp newest f
    = ⟨f, (EventTime.ofFrame f).time newest, (EventTime.ofFrame f).volume.toInt⟩ := by
  rw [stamp, EventTime.ofFrame]
  cases f.payload?.bind EventTime.read? with
  | none => rfl
  | some e => rfl

@[simp] theorem frame_stamp (newest : Int) (f : Frame) : (stamp newest f).frame = f := by
  rw [stamp_eq]

theorem stamp_time_nonneg {newest : Int} (nonneg : 0 ≤ newest) (f : Frame) :
    0 ≤ (stamp newest f).time := by
  rw [stamp_eq, EventTime.time]
  dsimp only
  split
  · omega
  · split
    · omega
    · exact nonneg

theorem stamp_time_le {newest : Int} (le : newest ≤ Int64.maxValue.toInt) (f : Frame) :
    (stamp newest f).time ≤ Int64.maxValue.toInt := by
  have max (n : Int64) : n.toInt ≤ Int64.maxValue.toInt := Int64.toInt_le n
  rw [stamp_eq, EventTime.time]
  dsimp only
  split
  · exact max _
  · split
    · exact max _
    · exact le

theorem clamp_mono {m n : Int} (le : m ≤ n) : clamp m ≤ clamp n := by
  rw [clamp, clamp]
  omega

namespace DelayWindow

/-! ## What a push can do -/

/-- What holds of a window as long as no sequenced frame arrives. -/
structure Steady (w : DelayWindow) : Prop where
  /-- The window reaches back, not ahead. -/
  delay_nonneg : 0 ≤ w.delay
  /-- The newest time is none or a positive one. -/
  nonneg : 0 ≤ w.highWater
  /-- It is a time that a frame can have. -/
  bound : w.highWater ≤ Int64.maxValue.toInt
  /-- Nothing waits in a sequence. -/
  idle : w.sequencer = .empty

theorem steady_empty {delay : Int} (nonneg : 0 ≤ delay) : (empty delay).Steady :=
  ⟨nonneg, Int.le_refl 0, Int64.toInt_le 0, rfl⟩

theorem push_eq (w : DelayWindow) {f : Frame} (unsequenced : f.seq.toInt ≤ 0) :
    w.push f =
      if (stamp w.highWater f).time < w.cutoff then (w, [(stamp w.highWater f).frame])
      else
        let held := { w with waiting := w.waiting ++ [stamp w.highWater f] }
        if w.highWater < (stamp w.highWater f).time then held.advance (stamp w.highWater f).time
        else (held, []) := by
  rw [push, if_neg (Int.not_lt.mpr unsequenced), pushTimed, stamp_eq]

/-- What a push of a frame outside any sequence makes of a window, and what it delivers. -/
inductive Taken (w : DelayWindow) (t : Timed) : DelayWindow × List Frame → Prop where
  /-- A frame older than the window is delivered at once. -/
  | late (late : t.time < w.highWater - w.delay) : Taken w t (w, [t.frame])
  /-- A frame within the window waits. -/
  | held (onTime : w.highWater - w.delay ≤ t.time) (le : t.time ≤ w.highWater) :
    Taken w t ({ w with waiting := w.waiting ++ [t] }, [])
  /-- A frame newer than all others waits and moves the window. -/
  | newest (onTime : w.highWater - w.delay ≤ t.time) (lt : w.highWater < t.time) :
    Taken w t (({ w with waiting := w.waiting ++ [t] }).advance t.time)

/-- A push of a frame that is not late goes on with the sort: what it delivers comes before
everything that waits now or comes later, if that is not older than the window is now. -/
theorem Taken.released {w : DelayWindow} {t : Timed} {result : DelayWindow × List Frame}
    (taken : Taken w t result) (notLate : w.highWater - w.delay ≤ t.time) {later : List Timed}
    (ahead : ∀ b ∈ later, result.1.cutoff ≤ b.time) :
    result.2 ++ ((result.1.waiting ++ later).mergeSort Timed.inOrder).map Timed.frame
      = ((w.waiting ++ t :: later).mergeSort Timed.inOrder).map Timed.frame := by
  rw [List.append_cons]
  cases taken with
  | late late => omega
  | held => rfl
  | newest =>
    let moved : DelayWindow := { w with highWater := t.time }
    let isOld (a : Timed) : Bool := decide (a.time < moved.cutoff)
    have old_le : ∀ a, isOld a = true → ∀ b ∈ later, a.inOrder b = true := by
      intro a old b hb
      have lt : a.time < b.time := Int.lt_of_lt_of_le (of_decide_eq_true old) (ahead b hb)
      exact decide_eq_true (.inl lt)
    have cut := ranking_inOrder.takeWhile_append_mergeSort
      (ranking_inOrder.pairwise_mergeSort (w.waiting ++ [t])) old_le
    rw [← ranking_inOrder.mergeSort_mergeSort_append (w.waiting ++ [t]) later, ← cut,
      List.map_append]
    rfl

namespace Steady

variable {w : DelayWindow}

/-- The beginning of the window is computed without overflow, as far as times can tell. -/
theorem lt_cutoff_iff (h : w.Steady) {time : Int} (nonneg : 0 ≤ time) :
    time < w.cutoff ↔ time < w.highWater - w.delay := by
  have delay_nonneg := h.delay_nonneg
  have bound := h.bound
  have lowest : Int64.minValue.toInt < 0 := by decide
  rw [cutoff, clamp]
  omega

theorem push_taken (h : w.Steady) {f : Frame} (unsequenced : f.seq.toInt ≤ 0) :
    Taken w (stamp w.highWater f) (w.push f) := by
  have late_iff := h.lt_cutoff_iff (stamp_time_nonneg h.nonneg f)
  rw [w.push_eq unsequenced]
  generalize stamp w.highWater f = t at late_iff ⊢
  dsimp only
  split
  · next early => exact .late (late_iff.mp early)
  · next notEarly =>
    have onTime := Int.not_lt.mp (late_iff.not.mp notEarly)
    split
    · next lt => exact .newest onTime lt
    · next notNewer => exact .held onTime (Int.not_lt.mp notNewer)

theorem push_of_late (h : w.Steady) {f : Frame} (unsequenced : f.seq.toInt ≤ 0)
    (late : (stamp w.highWater f).time < w.highWater - w.delay) : w.push f = (w, [f]) := by
  have delay_nonneg := h.delay_nonneg
  generalize eq : w.push f = result
  cases eq ▸ h.push_taken unsequenced with
  | late => rw [frame_stamp]
  | held onTime => omega
  | newest onTime => omega

/-- The newest time is the greatest one so far. -/
theorem highWater_push (h : w.Steady) {f : Frame} (unsequenced : f.seq.toInt ≤ 0) :
    (w.push f).1.highWater = max w.highWater (stamp w.highWater f).time := by
  have delay_nonneg := h.delay_nonneg
  have taken := h.push_taken unsequenced
  generalize stamp w.highWater f = t at taken ⊢
  generalize w.push f = result at taken ⊢
  cases taken with
  | late late =>
    show w.highWater = _
    omega
  | held _ le => exact (Int.max_eq_left le).symm
  | newest _ lt => exact (Int.max_eq_right (Int.le_of_lt lt)).symm

theorem push (h : w.Steady) {f : Frame} (unsequenced : f.seq.toInt ≤ 0) :
    (w.push f).1.Steady := by
  have nonneg := stamp_time_nonneg h.nonneg f
  have bound := stamp_time_le h.bound f
  have taken := h.push_taken unsequenced
  generalize stamp w.highWater f = t at nonneg bound taken
  generalize w.push f = result at taken ⊢
  cases taken with
  | late => exact h
  | held => exact ⟨h.delay_nonneg, h.nonneg, h.bound, h.idle⟩
  | newest => exact ⟨h.delay_nonneg, nonneg, bound, h.idle⟩

end Steady

/-! ## Runs -/

/-- A push, with what is known of its frame on arrival. -/
structure Turn where
  /-- The frame with the time it is given. -/
  arrival : Timed
  /-- That time is older than the window. -/
  isLate : Bool
  /-- What the push delivers. -/
  delivered : List Frame

/-- The push of a frame. -/
def turn (w : DelayWindow) (f : Frame) : Turn :=
  let arrival := stamp w.highWater f
  ⟨arrival, decide (arrival.time < w.highWater - w.delay), (w.push f).2⟩

/-- The pushes of frames one after another. -/
def turns (w : DelayWindow) : List Frame → List Turn
  | [] => []
  | f :: rest => w.turn f :: (w.push f).1.turns rest

/-- The window after the pushes of frames. -/
def pushAll (w : DelayWindow) (frames : List Frame) : DelayWindow :=
  frames.foldl (fun w f => (w.push f).1) w

/-- The pushes whose frame is not late. -/
def onTime (turns : List Turn) : List Turn := turns.filter fun t => !t.isLate

/-- The pushes whose frame is late. -/
def tooLate (turns : List Turn) : List Turn := turns.filter Turn.isLate

theorem onTime_cons_of_isLate {t : Turn} {rest : List Turn} (late : t.isLate = true) :
    onTime (t :: rest) = onTime rest := by
  rw [onTime, List.filter_cons, late]
  rfl

theorem onTime_cons_of_not_isLate {t : Turn} {rest : List Turn} (notLate : t.isLate = false) :
    onTime (t :: rest) = t :: onTime rest := by
  rw [onTime, List.filter_cons, notLate]
  rfl

theorem map_frame_turns (w : DelayWindow) (frames : List Frame) :
    (w.turns frames).map (fun t => t.arrival.frame) = frames := by
  induction frames generalizing w with
  | nil => rfl
  | cons f rest ih => rw [turns, List.map_cons, ih, turn, frame_stamp]

namespace Steady

variable {w : DelayWindow} {frames : List Frame}

/-- The window only moves up. -/
theorem cutoff_le_push (h : w.Steady) {f : Frame} (unsequenced : f.seq.toInt ≤ 0) :
    w.cutoff ≤ (w.push f).1.cutoff := by
  have taken := h.push_taken unsequenced
  generalize stamp w.highWater f = t at taken
  generalize w.push f = result at taken ⊢
  cases taken with
  | late => exact Int.le_refl _
  | held => exact Int.le_refl _
  | newest _ lt =>
    refine clamp_mono (n := t.time - w.delay) ?_
    omega

/-- So no frame that is still to come and not late is older than the window is now. -/
theorem cutoff_le_of_onTime (h : w.Steady) (unsequenced : ∀ f ∈ frames, f.seq.toInt ≤ 0) :
    ∀ t ∈ onTime (w.turns frames), w.cutoff ≤ t.arrival.time := by
  induction frames generalizing w with
  | nil =>
    intro t ht
    cases ht
  | cons f rest ih =>
    obtain ⟨first, others⟩ := List.forall_mem_cons.mp unsequenced
    intro t ht
    obtain ⟨mem, notLate⟩ := List.mem_filter.mp ht
    rcases List.mem_cons.mp mem with rfl | mem
    · have late_iff := h.lt_cutoff_iff (stamp_time_nonneg h.nonneg f)
      rw [Bool.not_eq_true', turn, decide_eq_false_iff_not, ← late_iff] at notLate
      exact Int.not_lt.mp notLate
    · have later := ih (h.push first) others t (List.mem_filter.mpr ⟨mem, notLate⟩)
      exact Int.le_trans (h.cutoff_le_push first) later

/-- A late frame is delivered during its own push, and alone. -/
theorem delivered_of_isLate (h : w.Steady) (unsequenced : ∀ f ∈ frames, f.seq.toInt ≤ 0) :
    ∀ t ∈ w.turns frames, t.isLate = true → t.delivered = [t.arrival.frame] := by
  induction frames generalizing w with
  | nil =>
    intro t ht
    cases ht
  | cons f rest ih =>
    obtain ⟨first, others⟩ := List.forall_mem_cons.mp unsequenced
    intro t ht isLate
    rcases List.mem_cons.mp ht with rfl | ht
    · rw [turn, decide_eq_true_iff] at isLate
      rw [turn, h.push_of_late first isLate, frame_stamp]
    · exact ih (h.push first) others t ht isLate

/-- What frames that are not late deliver, with what is left in the end, is everything that waited
and all of these frames, in order of time. -/
theorem released (h : w.Steady) (unsequenced : ∀ f ∈ frames, f.seq.toInt ≤ 0) :
    (onTime (w.turns frames)).flatMap Turn.delivered ++ (w.pushAll frames).flush.2
      = ((w.waiting ++ (onTime (w.turns frames)).map Turn.arrival).mergeSort Timed.inOrder).map
          Timed.frame := by
  induction frames generalizing w with
  | nil =>
    show w.flush.2 = _
    rw [flush, h.idle, sorted_eq, turns, onTime, List.filter_nil, List.map_nil, List.append_nil]
    rfl
  | cons f rest ih =>
    obtain ⟨first, others⟩ := List.forall_mem_cons.mp unsequenced
    rw [turns, turn, pushAll, List.foldl_cons, ← pushAll]
    by_cases late : (stamp w.highWater f).time < w.highWater - w.delay
    · rw [onTime_cons_of_isLate (decide_eq_true late), h.push_of_late first late]
      exact ih h others
    · rw [onTime_cons_of_not_isLate (decide_eq_false late), List.flatMap_cons, List.append_assoc,
        ih (h.push first) others, List.map_cons]
      refine (h.push_taken first).released (Int.not_lt.mp late) ?_
      intro b hb
      obtain ⟨t, ht, rfl⟩ := List.mem_map.mp hb
      exact (h.push first).cutoff_le_of_onTime others t ht

/-- Every frame is delivered once, late or in its place. -/
theorem delivered_perm (h : w.Steady) (nothing : w.waiting = [])
    (unsequenced : ∀ f ∈ frames, f.seq.toInt ≤ 0) :
    ((w.turns frames).flatMap Turn.delivered ++ (w.pushAll frames).flush.2).Perm frames := by
  let late := tooLate (w.turns frames)
  let inTime := onTime (w.turns frames)
  have split : (late ++ inTime).Perm (w.turns frames) := List.filter_append_perm ..
  have alone : late.flatMap Turn.delivered = late.map (fun t => t.arrival.frame) := by
    rw [List.map_eq_flatMap]
    refine List.flatMap_congr ?_
    intro t ht
    obtain ⟨mem, isLate⟩ := List.mem_filter.mp ht
    exact h.delivered_of_isLate unsequenced t mem isLate
  have sorted := h.released unsequenced
  rw [nothing, List.nil_append] at sorted
  calc (w.turns frames).flatMap Turn.delivered ++ (w.pushAll frames).flush.2
    _ |>.Perm ((late ++ inTime).flatMap Turn.delivered ++ (w.pushAll frames).flush.2) :=
      (split.symm.flatMap_right _).append_right _
    _ = late.map (fun t => t.arrival.frame)
          ++ ((inTime.map Turn.arrival).mergeSort Timed.inOrder).map Timed.frame := by
      rw [List.flatMap_append, List.append_assoc, sorted, alone]
    _ |>.Perm ((late ++ inTime).map fun t => t.arrival.frame) := by
      rw [List.map_append]
      refine List.Perm.append_left _ ?_
      exact (List.mergeSort_perm ..).map Timed.frame |>.trans (List.Perm.of_eq List.map_map)
    _ |>.Perm ((w.turns frames).map fun t => t.arrival.frame) := split.map _
    _ = frames := w.map_frame_turns frames

end Steady

end DelayWindow

open DelayWindow

/-- **Frames are released in order of time.** Push any frames outside a sequence into a window that
has seen nothing, of any length that is not negative, and then flush it. Each frame is given a time
on arrival (`stamp`), and is late if that is before the beginning of the window as it is then. Then
every frame is delivered once; a late one during its own push, and alone; and leaving the pushes of
late frames aside, what is delivered is the stable sort of the frames that are not late, by time and
then by volume. In particular, if none is late, everything that is delivered is the stable sort of
everything that was pushed. -/
theorem releases_in_order {delay : Int} (nonneg : 0 ≤ delay) {frames : List Frame}
    (unsequenced : ∀ f ∈ frames, f.seq.toInt ≤ 0) :
    let turns := (empty delay).turns frames
    let flushed := ((empty delay).pushAll frames).flush.2
    let inOrder (arrived : List Timed) := arrived.mergeSort fun a b => keyLE a.key b.key
    turns.map (fun t => t.arrival.frame) = frames ∧
      (turns.flatMap Turn.delivered ++ flushed).Perm frames ∧
      (∀ t ∈ turns, t.isLate = true → t.delivered = [t.arrival.frame]) ∧
      (onTime turns).flatMap Turn.delivered ++ flushed
        = (inOrder ((onTime turns).map Turn.arrival)).map Timed.frame ∧
      ((∀ t ∈ turns, t.isLate = false) →
        turns.flatMap Turn.delivered ++ flushed
          = (inOrder (turns.map Turn.arrival)).map Timed.frame) := by
  intro turns flushed inOrder
  have h := steady_empty nonneg
  have released : _ = (inOrder ((onTime turns).map Turn.arrival)).map Timed.frame :=
    h.released unsequenced
  refine ⟨map_frame_turns _ _, h.delivered_perm rfl unsequenced,
    h.delivered_of_isLate unsequenced, released, ?_⟩
  intro noneLate
  have all : onTime turns = turns := by
    refine List.filter_eq_self.mpr ?_
    intro t ht
    rw [noneLate t ht]
    rfl
  rwa [all] at released

/-- Frames outside any sequence, of the given times and volumes. -/
def timed (events : List (Nat × Nat)) : List Frame :=
  events.map fun (time, volume) =>
    ⟨"price", String.ofList (Json.record
      [("tick_timestamp", Text.natural time), ("turnover_volume", Text.natural volume)]), 0⟩

/-- Of these frames only one is late; the others are released in order of time. -/
theorem releases_in_order_sample :
    let frames := timed [(1000, 0), (1200, 7), (1150, 0), (1200, 3), (900, 0)]
    let turns := (empty 100).turns frames
    let flushed := ((empty 100).pushAll frames).flush.2
    turns.map (fun t => (t.arrival.key, t.isLate))
        = [((1000, 0), false), ((1200, 7), false), ((1150, 0), false), ((1200, 3), false),
          ((900, 0), true)] ∧
      (turns.flatMap Turn.delivered ++ flushed).Perm frames ∧
      (onTime turns).flatMap Turn.delivered ++ flushed
        = (((onTime turns).map Turn.arrival).mergeSort fun a b => keyLE a.key b.key).map
            Timed.frame := by
  intro frames turns flushed
  have unsequenced : ∀ f ∈ frames, f.seq.toInt ≤ 0 := by decide
  have nonneg : (0 : Int) ≤ 100 := by decide
  obtain ⟨-, once, -, released, -⟩ := releases_in_order nonneg unsequenced
  exact ⟨by decide +kernel, once, released⟩

end MarketStream.Reorder
