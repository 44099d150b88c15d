import MarketStream.Proofs.Reorder.Front

/-!
# Order is restored

A sequencer that is given frames in a scrambled order, none of them more than the gap away from
the front of what has come before, delivers them in the order of their numbers and each number as
it first came. At every instant it has delivered all numbers up to the front, and what it holds
back are the frames beyond.

* `Windowed` — no frame is far from the front;
* `Restored`, `restored_run` — the invariant of such a run, and that every push keeps it;
* `delivers_in_order` — what has been delivered after each push, with the permutations of the first
  `n` numbers as a special case.
-/

namespace MarketStream.Reorder

open Sequencer

/-- A fresh sequencer after some pushes. -/
def after (frames : List Frame) : Sequencer := (Sequencer.empty.run (frames.map .push)).1

/-- What a fresh sequencer delivers during some pushes. -/
def delivered (frames : List Frame) : List Frame := (Sequencer.empty.run (frames.map .push)).2

/-- No sequenced frame is more than the gap away from the front of the frames before it. -/
def Windowed (frames : List Frame) : Prop :=
  ∀ i, (h : i < frames.length) → 0 < frames[i].seq.toInt →
    (front (frames.take i) : Int) - 1000 ≤ frames[i].seq.toInt ∧
      frames[i].seq.toInt ≤ front (frames.take i) + 1000

instance (frames : List Frame) : Decidable (Windowed frames) :=
  inferInstanceAs (Decidable (∀ i, (h : i < frames.length) → _))

theorem after_snoc (frames : List Frame) (f : Frame) :
    after (frames ++ [f]) = ((after frames).push f).1 := by
  rw [after, List.map_append, List.map_singleton, run_snoc]
  rfl

theorem delivered_snoc (frames : List Frame) (f : Frame) :
    delivered (frames ++ [f]) = delivered frames ++ ((after frames).push f).2 := by
  rw [delivered, List.map_append, List.map_singleton, run_snoc]
  rfl

/-- What holds of a sequencer after frames that were never far from the front. -/
structure Restored (past : List Frame) : Prop where
  /-- The sequence stands at the front. -/
  lastSent : (after past).lastSent = front past
  /-- All frames beyond the front are held back. -/
  waiting : (after past).waiting = arrange (past.filter (isBeyond (front past)))
  /-- All numbers up to the front have been delivered. -/
  delivered :
    (delivered past).filter isSequenced = (List.range' 1 (front past)).flatMap (copies past)
  /-- No frame is far beyond the front. -/
  near : ∀ f ∈ past, f.seq.toInt ≤ front past + 1000

theorem restored_nil : Restored [] := ⟨rfl, rfl, rfl, by simp⟩

/-- The numbers up to the front are delivered as before if a frame of none of them is added. -/
theorem flatMap_copies_snoc {past : List Frame} {f : Frame} {k : Nat}
    (ne : ∀ n, 1 ≤ n → n ≤ k → copies (past ++ [f]) n = copies past n) :
    (List.range' 1 k).flatMap (copies (past ++ [f])) = (List.range' 1 k).flatMap (copies past) :=
  List.flatMap_congr fun n hn => by
    obtain ⟨h₁, h₂⟩ := List.mem_range'_1.mp hn
    exact ne n h₁ (by omega)

namespace Restored

variable {past : List Frame} {f : Frame}

theorem near_snoc (r : Restored past) (le : f.seq.toInt ≤ front past + 1000) :
    ∀ g ∈ past ++ [f], g.seq.toInt ≤ front (past ++ [f]) + 1000 := by
  intro g hg
  have mono := front_le_snoc past f
  rcases List.mem_append.mp hg with hg | hg
  · have := r.near g hg
    omega
  · obtain rfl := List.mem_singleton.mp hg
    omega

/-- A push after which the sequence stands where it stood, and which delivers nothing sequenced. -/
theorem snoc_of_unmoved (r : Restored past) (le : f.seq.toInt ≤ front past + 1000)
    (front_eq : front (past ++ [f]) = front past)
    (lastSent : ((after past).push f).1.lastSent = (after past).lastSent)
    (waiting : ((after past).push f).1.waiting
      = if isBeyond (front past) f then hold f (after past).waiting else (after past).waiting)
    (out : ((after past).push f).2.filter isSequenced = [])
    (same : ∀ n, 1 ≤ n → n ≤ front past → copies (past ++ [f]) n = copies past n) :
    Restored (past ++ [f]) := by
  refine ⟨?_, ?_, ?_, r.near_snoc le⟩
  · rw [after_snoc, lastSent, front_eq, r.lastSent]
  · rw [after_snoc, waiting, front_eq, r.waiting, List.filter_append]
    by_cases h : isBeyond (front past) f <;> simp [h]
  · rw [delivered_snoc, List.filter_append, out, List.append_nil, r.delivered, front_eq,
      flatMap_copies_snoc same]

/-- A frame outside the sequence passes straight through. -/
theorem snoc_unsequenced (r : Restored past) (h : f.seq.toInt ≤ 0) : Restored (past ++ [f]) := by
  have push : (after past).push f = (after past, [f]) := by rw [Sequencer.push, if_pos h]
  refine r.snoc_of_unmoved (by omega) (front_snoc_of_ne (by omega)) ?_ ?_ ?_ fun n _ _ => ?_
  · rw [push]
  · rw [push, if_neg (not_isBeyond (by omega))]
  · simp [push, isSequenced, h]
  · exact copies_snoc_of_ne (by omega)

/-- A frame ahead of a gap is held back. -/
theorem snoc_early (r : Restored past) (ahead : (front past : Int) + 1 < f.seq.toInt)
    (le : f.seq.toInt ≤ front past + 1000) : Restored (past ++ [f]) := by
  have notDue : ¬ isNext (after past).lastSent f.seq.toInt = true := by
    rw [r.lastSent, isNext_iff (Int.natCast_nonneg _) (front_le past) (seq_le f), resetGap]
    omega
  have push : (after past).push f
      = ({ after past with waiting := hold f (after past).waiting }, []) := by
    rw [Sequencer.push, if_neg (by omega), if_neg notDue, if_neg (by rw [r.lastSent]; omega)]
  refine r.snoc_of_unmoved le (front_snoc_of_ne (by omega)) ?_ ?_ ?_ fun n _ _ => ?_
  · rw [push]
  · rw [push, if_pos]
    rw [isBeyond_iff]
    omega
  · rw [push]
    rfl
  · exact copies_snoc_of_ne (by omega)

/-- A late copy is dropped. -/
theorem snoc_late (r : Restored past) (pos : 0 < f.seq.toInt) (le : f.seq.toInt ≤ front past)
    (ge : (front past : Int) - 1000 ≤ f.seq.toInt)
    (notTop : ¬ ((front past : Int) = Int64.maxValue.toInt ∧ f.seq.toInt = front past)) :
    Restored (past ++ [f]) := by
  have notDue : ¬ isNext (after past).lastSent f.seq.toInt = true := by
    rw [r.lastSent, isNext_iff (Int.natCast_nonneg _) (front_le past) (seq_le f), resetGap]
    omega
  have push : (after past).push f = (after past, []) := by
    rw [Sequencer.push, if_neg (by omega), if_neg notDue, if_pos (by rw [r.lastSent]; exact le)]
  refine r.snoc_of_unmoved (by omega) (front_snoc_of_ne (by omega)) ?_ ?_ ?_ fun n h₁ h₂ => ?_
  · rw [push]
  · rw [push, if_neg (not_isBeyond le)]
  · rw [push]
    rfl
  · -- The number was seen, so another copy of it changes nothing.
    by_cases eq : f.seq.toInt = n
    · have top : (n : Int) ≠ Int64.maxValue.toInt := by
        have := front_le past
        omega
      obtain ⟨g, hg, hn⟩ := seen_of_le_front h₁ h₂
      have mem : g ∈ past.filter (numbered n) := List.mem_filter.mpr ⟨hg, numbered_iff.mpr hn⟩
      rw [copies, copies, if_neg top, if_neg top, List.filter_append,
        List.take_append_of_le_length (List.length_pos_of_mem mem)]
    · exact copies_snoc_of_ne eq

/-- The greatest number, once delivered, is delivered whenever it comes. -/
theorem snoc_top (r : Restored past) (top : (front past : Int) = Int64.maxValue.toInt)
    (eq : f.seq.toInt = front past) : Restored (past ++ [f]) := by
  have due : isNext (after past).lastSent f.seq.toInt = true := by
    rw [r.lastSent, isNext_iff (Int.natCast_nonneg _) (front_le past) (seq_le f)]
    exact .inr (.inl ⟨top, eq⟩)
  have pos : 0 < f.seq.toInt := by
    rw [eq, top]
    decide
  have empty : (after past).waiting = [] := by
    rw [r.waiting, filter_isBeyond_of_top top]
    rfl
  have push : (after past).push f = (⟨[], f.seq.toInt⟩, [f]) := by
    rw [Sequencer.push, if_neg (by omega), if_pos due, empty]
    rfl
  have unmoved : front (past ++ [f]) = front past := front_snoc_of_ne (by omega)
  refine ⟨?_, ?_, ?_, r.near_snoc (by omega)⟩
  · rw [after_snoc, push, unmoved, eq]
  · rw [after_snoc, push, unmoved, filter_isBeyond_of_top top]
    rfl
  · obtain ⟨k, hk⟩ : ∃ k, front past = k + 1 := Nat.exists_eq_succ_of_ne_zero (by omega)
    have last : copies (past ++ [f]) (k + 1) = copies past (k + 1) ++ [f] := by
      rw [copies, copies, ← hk, if_pos top, if_pos top, List.filter_append]
      simp [numbered, eq]
    have others : ∀ n, 1 ≤ n → n ≤ k → copies (past ++ [f]) n = copies past n :=
      fun n _ _ => copies_snoc_of_ne (by omega)
    rw [delivered_snoc, List.filter_append, r.delivered, push, unmoved, hk, List.range'_concat,
      List.flatMap_append, List.flatMap_append, flatMap_copies_snoc others]
    simp [isSequenced, pos, Nat.add_comm 1 k, last]

/-! #### The next number -/

/-- What was seen beyond the front is held back. -/
theorem seen_waiting_iff (r : Restored past) {n : Nat} (lt : front past < n) :
    Seen (after past).waiting n ↔ Seen past n := by
  simp only [r.waiting, Seen, mem_arrange, List.mem_filter, isBeyond_iff]
  constructor
  · rintro ⟨g, ⟨hg, -⟩, h⟩
    exact ⟨g, hg, h⟩
  · rintro ⟨g, hg, h⟩
    exact ⟨g, ⟨hg, by omega⟩, h⟩

theorem push_next (r : Restored past) (eq : f.seq.toInt = ((front past + 1 : Nat) : Int)) :
    (after past).push f
      = ((drain (front past + 1 : Nat) (after past).waiting).1,
        f :: (drain (front past + 1 : Nat) (after past).waiting).2) := by
  have due : isNext (after past).lastSent f.seq.toInt = true := by
    rw [r.lastSent, isNext_iff (Int.natCast_nonneg _) (front_le past) (seq_le f)]
    exact .inl eq
  rw [Sequencer.push, if_neg (by omega), if_pos due, eq]

/-- The next number closes the gap before what waits. -/
theorem exists_climb (r : Restored past) (eq : f.seq.toInt = ((front past + 1 : Nat) : Int)) :
    ∃ k', Climb (front past + 1) (after past).waiting k' := by
  refine drain_climbs ?_ (eq ▸ seq_le f) fun g hg => ?_
  · rw [r.waiting]
    exact inOrder_arrange _
  · -- What waits lies beyond the front and less than the gap ahead of it.
    rw [r.waiting, mem_arrange, List.mem_filter, isBeyond_iff] at hg
    have := r.near g hg.1
    rw [resetGap]
    omega

/-- The front moves to where draining ends. -/
theorem front_snoc_next (r : Restored past) (eq : f.seq.toInt = ((front past + 1 : Nat) : Int))
    {k' : Nat} (c : Climb (front past + 1) (after past).waiting k') :
    front (past ++ [f]) = k' := by
  have le := c.le
  refine front_eq (fun n h₁ h₂ => ?_) ?_
  · rw [seen_snoc]
    rcases Nat.lt_trichotomy n (front past + 1) with lt | rfl | gt
    · exact .inl (seen_of_le_front h₁ (by omega))
    · exact .inr eq
    · exact .inl ((r.seen_waiting_iff (by omega)).mp (c.seen n gt h₂))
  · rw [seen_snoc]
    rintro (h | h)
    · exact c.missing ((r.seen_waiting_iff (by omega)).mpr h)
    · omega

/-- What the next number unblocks: the numbers up to the new front. -/
theorem unblocked_eq (r : Restored past) (eq : f.seq.toInt = ((front past + 1 : Nat) : Int))
    {k' : Nat} (c : Climb (front past + 1) (after past).waiting k') :
    (drain (front past + 1 : Nat) (after past).waiting).2
      = (List.range' (front past + 1 + 1) (k' - (front past + 1))).flatMap
        (copies (past ++ [f])) := by
  have none_again : again (after past).waiting (front past + 1) = [] :=
    again_of_not_seen fun h =>
      not_seen_front_succ past ((r.seen_waiting_iff (Nat.lt_succ_self _)).mp h)
  rw [c.delivered, none_again, List.nil_append]
  refine List.flatMap_congr fun n hn => ?_
  have lt := (List.mem_range'_1.mp hn).1
  rw [r.waiting, copies_arrange, copies_filter_of_lt (by omega), copies_snoc_of_ne (by omega)]

theorem isSequenced_of_mem_copies {frames : List Frame} {ns : List Nat} {g : Frame}
    (pos : ∀ n ∈ ns, 0 < n) (h : g ∈ ns.flatMap (copies frames)) : isSequenced g = true := by
  obtain ⟨n, hn, hg⟩ := List.mem_flatMap.mp h
  have := pos n hn
  rw [isSequenced, decide_eq_true_iff, seq_of_mem_copies hg]
  omega

/-- The next number is delivered, with everything that it unblocks. -/
theorem snoc_next (r : Restored past) (next : f.seq.toInt = (front past : Int) + 1) :
    Restored (past ++ [f]) := by
  have eq : f.seq.toInt = ((front past + 1 : Nat) : Int) := next
  obtain ⟨k', c⟩ := r.exists_climb eq
  have le := c.le
  have push := r.push_next eq
  have moved := r.front_snoc_next eq c
  have unblocked := r.unblocked_eq eq c
  refine ⟨?_, ?_, ?_, r.near_snoc (by omega)⟩
  · rw [after_snoc, push, c.state, moved]
  · have stays : ∀ g, (isBeyond k' g && isBeyond (front past) g) = isBeyond k' g := by
      intro g
      rw [Bool.and_eq_left_iff_imp]
      simp only [isBeyond_iff]
      omega
    rw [after_snoc, push, c.state, moved, r.waiting, filter_arrange, List.filter_filter]
    simp [stays, not_isBeyond (k := k') (f := f) (by omega)]
  · have sequenced : ∀ g ∈ f :: (drain (front past + 1 : Nat) (after past).waiting).2,
        isSequenced g = true := by
      intro g hg
      rcases List.mem_cons.mp hg with rfl | hg
      · rw [isSequenced, decide_eq_true_iff]
        omega
      · rw [unblocked] at hg
        refine isSequenced_of_mem_copies (fun n hn => ?_) hg
        have := (List.mem_range'_1.mp hn).1
        omega
    have split : List.range' 1 k' = List.range' 1 (front past)
        ++ (front past + 1) :: List.range' (front past + 1 + 1) (k' - (front past + 1)) := by
      rw [← List.range'_succ, Nat.add_comm (front past) 1, List.range'_append_1]
      congr 1
      omega
    rw [delivered_snoc, List.filter_append, r.delivered, push, moved,
      List.filter_eq_self.mpr sequenced, unblocked, split, List.flatMap_append, List.flatMap_cons,
      flatMap_copies_snoc fun n _ _ => copies_snoc_of_ne (by omega),
      copies_snoc_of_not_seen (not_seen_front_succ past) eq]
    rfl

/-- A push of a frame that is not far from the front keeps the invariant. -/
theorem snoc (r : Restored past)
    (window : 0 < f.seq.toInt → (front past : Int) - 1000 ≤ f.seq.toInt ∧
      f.seq.toInt ≤ front past + 1000) : Restored (past ++ [f]) := by
  rcases Int.lt_or_le 0 f.seq.toInt with pos | unsequenced
  · obtain ⟨lo, hi⟩ := window pos
    rcases Int.lt_trichotomy f.seq.toInt (front past + 1) with late | next | early
    · by_cases top : (front past : Int) = Int64.maxValue.toInt ∧ f.seq.toInt = front past
      · exact r.snoc_top top.1 top.2
      · exact r.snoc_late pos (by omega) lo top
    · exact r.snoc_next next
    · exact r.snoc_early early hi
  · exact r.snoc_unsequenced unsequenced

end Restored

theorem Windowed.take {frames : List Frame} (h : Windowed frames) (i : Nat) :
    Windowed (frames.take i) := by
  intro j hj pos
  rw [List.length_take] at hj
  rw [List.getElem_take] at pos ⊢
  rw [List.take_take, Nat.min_eq_left (by omega)]
  exact h j (by omega) pos

theorem Windowed.last {past : List Frame} {f : Frame} (h : Windowed (past ++ [f]))
    (pos : 0 < f.seq.toInt) :
    (front past : Int) - 1000 ≤ f.seq.toInt ∧ f.seq.toInt ≤ front past + 1000 := by
  have := h past.length (by simp)
  simp only [List.getElem_concat_length, List.take_left'] at this
  exact this pos

/-- Every run of pushes that are never far from the front keeps the invariant. -/
theorem restored_run {frames : List Frame} (h : Windowed frames) : Restored frames := by
  induction frames using List.reverseRecOn with
  | nil => exact restored_nil
  | append_singleton past f ih =>
    have before : Windowed past := by
      have := h.take past.length
      rwa [List.take_left'] at this
      rfl
    exact (ih before).snoc h.last

/-- Whatever a fresh sequencer has delivered or holds back was pushed. -/
theorem mem_of_mem_delivered {frames : List Frame} {g : Frame}
    (h : g ∈ delivered frames ∨ g ∈ (after frames).waiting) : g ∈ frames := by
  induction frames using List.reverseRecOn with
  | nil => simp [delivered, after, Sequencer.empty] at h
  | append_singleton past f ih =>
    rw [delivered_snoc, after_snoc, List.mem_append, or_assoc] at h
    rw [List.mem_append, List.mem_singleton]
    rcases h with h | h
    · exact .inl (ih (.inl h))
    · rcases mem_of_mem_push h with rfl | h
      · exact .inr rfl
      · exact .inl (ih (.inr h))

/-! ## Permutations -/

/-- The frames have the numbers from one to `n`, each once, and every number comes after those that
lie the gap or more before it. -/
structure Scrambled (n : Nat) (frames : List Frame) : Prop where
  /-- Each number comes once. -/
  perm : (frames.map fun f => f.seq.toInt).Perm ((List.range' 1 n).map Int.ofNat)
  /-- What comes later is not the gap or more before. -/
  apart : frames.Pairwise fun f g => f.seq.toInt - 1000 < g.seq.toInt

namespace Scrambled

variable {n : Nat} {frames : List Frame}

theorem seen_iff (h : Scrambled n frames) {m : Nat} : Seen frames m ↔ 1 ≤ m ∧ m ≤ n := by
  have : Seen frames m ↔ Int.ofNat m ∈ frames.map fun f => f.seq.toInt := by
    simp [Seen]
  rw [this, h.perm.mem_iff, List.mem_map]
  constructor
  · rintro ⟨m', hm, eq⟩
    obtain rfl := Int.ofNat.inj eq
    have := List.mem_range'_1.mp hm
    omega
  · intro hm
    exact ⟨m, List.mem_range'_1.mpr (by omega), rfl⟩

theorem bounds (h : Scrambled n frames) {f : Frame} (hf : f ∈ frames) :
    1 ≤ f.seq.toInt ∧ f.seq.toInt ≤ n := by
  have := h.perm.mem_iff.mp (List.mem_map_of_mem hf)
  obtain ⟨m, hm, eq⟩ := List.mem_map.mp this
  have := List.mem_range'_1.mp hm
  rw [← eq, Int.ofNat_eq_natCast]
  omega

theorem front_eq (h : Scrambled n frames) : front frames = n :=
  Reorder.front_eq (fun _ h₁ h₂ => h.seen_iff.mpr ⟨h₁, h₂⟩) fun seen => by
    have := (h.seen_iff.mp seen).2
    omega

/-- Such frames are never far from the front: all numbers that lie the gap or more before a frame
have come, and its own number has not. -/
theorem windowed (h : Scrambled n frames) : Windowed frames := by
  intro i hi _
  have split : frames = frames.take i ++ frames[i] :: frames.drop (i + 1) := by
    rw [← List.drop_eq_getElem_cons hi, List.take_append_drop]
  generalize frames[i] = f, frames.take i = past, frames.drop (i + 1) = rest at split
  subst split
  obtain ⟨lo, hi⟩ := h.bounds (f := f) (by simp)
  have nodup : ((past ++ f :: rest).map fun f => f.seq.toInt).Nodup :=
    h.perm.nodup_iff.mpr ((List.nodup_range' (s := 1)).map fun _ _ eq => Int.ofNat.inj eq)
  have new : ¬ Seen past f.seq.toInt.toNat := by
    rintro ⟨g, hg, eq⟩
    rw [List.map_append, List.nodup_append] at nodup
    refine nodup.2.2 _ (List.mem_map_of_mem hg) _ (List.mem_map_of_mem List.mem_cons_self) ?_
    omega
  -- What lies the gap or more before the frame cannot come after it.
  have reached : (f.seq.toInt - 1000).toNat ≤ front past := by
    refine le_front_iff.mpr fun m h₁ h₂ => ?_
    obtain ⟨g, hg, eq⟩ := h.seen_iff.mpr ⟨h₁, by omega⟩
    rcases List.mem_append.mp hg with hg | hg
    · exact ⟨g, hg, eq⟩
    · rcases List.mem_cons.mp hg with rfl | hg
      · omega
      · have := List.rel_of_pairwise_cons (List.pairwise_append.mp h.apart).2.1 hg
        omega
  constructor
  · by_contra behind
    exact new (seen_of_le_front (by omega) (by omega))
  · omega

/-- There are no more such frames than numbers. -/
theorem length_lt (h : Scrambled n frames) : frames.length < 0x8000000000000000 := by
  have length : frames.length = n := by simpa using h.perm.length_eq
  have := front_le frames
  rw [h.front_eq, maxValue_eq] at this
  omega

/-- A scrambled stream comes out in order, whole. -/
theorem delivered_eq (h : Scrambled n frames) :
    (delivered frames).map (fun f => f.seq.toInt) = (List.range' 1 n).map Int.ofNat := by
  have r := restored_run h.windowed
  have all : (delivered frames).filter isSequenced = delivered frames :=
    List.filter_eq_self.mpr fun f hf => by
      have := h.bounds (mem_of_mem_delivered (.inl hf))
      rw [isSequenced, decide_eq_true_iff]
      omega
  have single : ∀ m ∈ List.range' 1 n,
      (copies frames m).map (fun f => f.seq.toInt) = [Int.ofNat m] := by
    intro m hm
    obtain ⟨h₁, h₂⟩ := List.mem_range'_1.mp hm
    obtain ⟨g, eq, -⟩ := List.map_eq_singleton_iff.mp
      (copies_map_some_of_short h₁ (by rw [h.front_eq]; omega) h.length_lt)
    have number : g.seq.toInt = m := seq_of_mem_copies (by rw [eq]; exact List.mem_singleton_self g)
    rw [eq, List.map_singleton, number]
    rfl
  rw [← all, r.delivered, h.front_eq, List.map_flatMap, List.flatMap_congr single,
    ← List.map_eq_flatMap]

theorem pending_eq (h : Scrambled n frames) : (after frames).pending = 0 := by
  have r := restored_run h.windowed
  rw [pending, r.waiting, h.front_eq,
    List.filter_eq_nil_iff.mpr fun f hf => not_isBeyond (h.bounds hf).2]
  rfl

end Scrambled

/-- **Order is restored.** Take frames none of which is far from the front of those before it. After
each push the sequenced frames delivered so far are those of the numbers up to the front `k`, in
order, each as it first came; the sequence stands at `k`; what waits are the frames beyond `k`; and
a frame outside the sequence is delivered at once and changes nothing. Only the greatest number of
all, which takes `2 ^ 63 - 1` frames to reach, is delivered again when it is repeated. In
particular every permutation of the first `n` numbers in which no frame comes the gap or more too
late is put in order, with nothing left waiting. -/
theorem delivers_in_order :
    (∀ frames, Windowed frames → ∀ i ≤ frames.length,
      let past := frames.take i
      let k := front past
      let out := (delivered past).filter isSequenced
      out = (List.range' 1 k).flatMap (copies past) ∧
      (past.length < 0x8000000000000000 → out.map some = (List.range' 1 k).map (first past)) ∧
      (after past).lastSent = k ∧
      (after past).pending = past.countP (isBeyond k) ∧
      ∀ f, f.seq.toInt ≤ 0 → (after past).push f = (after past, [f])) ∧
    ∀ frames n, Scrambled n frames →
      (delivered frames).map (fun f => f.seq.toInt) = (List.range' 1 n).map Int.ofNat ∧
        (after frames).pending = 0 := by
  refine ⟨fun frames windowed i _ => ?_, fun frames n h => ⟨h.delivered_eq, h.pending_eq⟩⟩
  have r := restored_run (windowed.take i)
  refine ⟨r.delivered, fun short => ?_, r.lastSent, ?_, fun f h => ?_⟩
  · have single : ∀ n ∈ List.range' 1 (front (frames.take i)),
        (copies (frames.take i) n).map some = [first (frames.take i) n] := fun n hn => by
      obtain ⟨h₁, h₂⟩ := List.mem_range'_1.mp hn
      exact copies_map_some_of_short h₁ (by omega) short
    rw [r.delivered, List.map_flatMap, List.flatMap_congr single, ← List.map_eq_flatMap]
  · rw [pending, r.waiting, (arrange_perm _).length_eq, List.countP_eq_length_filter]
  · rw [push, if_pos h]

/-- Frames of the given numbers, as samples. -/
def sample (numbers : List Int64) : List Frame := numbers.map fun n => ⟨"price", "null", n⟩

/-- A stream with a gap, a late copy, a frame outside the sequence and two early copies. -/
theorem delivers_in_order_sample :
    Windowed (sample [3, 1, 0, 3, 1, 1001, 2]) ∧
      (after (sample [3, 1, 0, 3, 1, 1001, 2])).lastSent = 3 ∧
      (after (sample [3, 1, 0, 3, 1, 1001, 2])).pending = 1 ∧
      Scrambled 4 (sample [2, 4, 1, 3]) ∧
      (delivered (sample [2, 4, 1, 3])).map (fun f => f.seq.toInt) = [1, 2, 3, 4] := by
  have windowed : Windowed (sample [3, 1, 0, 3, 1, 1001, 2]) := by decide
  have scrambled : Scrambled 4 (sample [2, 4, 1, 3]) := ⟨by decide, by decide⟩
  obtain ⟨-, -, lastSent, pending, -⟩ := delivers_in_order.1 _ windowed 7 (by decide)
  exact ⟨windowed, lastSent, pending, scrambled, (delivers_in_order.2 _ 4 scrambled).1⟩

end MarketStream.Reorder
