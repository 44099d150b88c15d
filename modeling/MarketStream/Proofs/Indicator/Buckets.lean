import Mathlib.Data.List.SplitBy
import Mathlib.Data.Rat.Floor
import MarketStream.Indicator

/-!
# Series cut into buckets

A series is cut wherever the bucket of its values changes. Nothing is lost by this, and no two
neighbouring groups are of one bucket. A bucket may be entered again in a series that is not in
order; in a sorted one it is not, and a group is all that falls into its bucket.

* `bucket_eq_floor`, `bucket_mono` — the bucket of a value, before and after the epoch;
* `bucket_eq_of_mem`, `isChain_groupBy` — the values of one group, and of two neighbours;
* `pairwise_sort` — the order of a sorted series;
* `pairwise_groupBy_sort`, `eq_filter_of_mem` — the groups of a sorted series;
* `grouping_loses_nothing` — any series, sorted or not.
-/

namespace MarketStream.Indicator.Series

variable {s g : Series} {millis : Int} {v w : Indicator}

/-! ## Buckets -/

/-- A bucket is a quotient rounded down, also for times before the epoch. -/
theorem bucket_eq_floor (millis : Int) (v : Indicator) :
    bucket millis v = ⌊(v.tickTime.toInt : ℚ) / (max millis 1 : Int)⌋ := by
  obtain ⟨length, eq⟩ := Int.eq_ofNat_of_zero_le (show 0 ≤ max millis 1 by omega)
  rw [bucket, eq, Int.cast_natCast, Rat.floor_intCast_div_natCast]

/-- Later values are in no earlier bucket. -/
theorem bucket_mono (le : v.tickTime.toInt ≤ w.tickTime.toInt) :
    bucket millis v ≤ bucket millis w :=
  Int.ediv_le_ediv (by omega) le

/-! ## Groups -/

/-- The values of one group are in one bucket. -/
theorem bucket_eq_of_mem (group : g ∈ s.groupBy millis) (hv : v ∈ g) (hw : w ∈ g) :
    bucket millis v = bucket millis w := by
  have neighbours : g.IsChain fun v w => bucket millis v = bucket millis w :=
    (List.isChain_of_mem_splitBy group).imp fun _ _ same => eq_of_beq same
  have buckets : (g.map (bucket millis)).Pairwise (· = ·) :=
    ((List.isChain_map (bucket millis)).mpr neighbours).pairwise
  exact buckets.forall_of_forall (fun _ _ => rfl) (List.mem_map_of_mem hv) (List.mem_map_of_mem hw)

theorem ne_nil_of_mem_groupBy (group : g ∈ s.groupBy millis) : g ≠ [] :=
  List.ne_nil_of_mem_splitBy group

theorem flatten_groupBy (s : Series) (millis : Int) : (s.groupBy millis).flatten = s :=
  List.flatten_splitBy ..

/-- Two groups next to each other are of different buckets. -/
theorem isChain_groupBy (s : Series) (millis : Int) :
    (s.groupBy millis).IsChain fun g h =>
      ∀ v ∈ g, ∀ w ∈ h, bucket millis v ≠ bucket millis w := by
  refine (List.isChain_getLast_head_splitBy _ s).imp_of_mem_imp ?_
  intro g h group next ⟨g_ne, h_ne, apart⟩ v hv w hw same
  -- What holds of the values where the series was cut holds of all values of the two groups.
  have cut : bucket millis (g.getLast g_ne) = bucket millis (h.head h_ne) :=
    calc bucket millis (g.getLast g_ne)
      _ = bucket millis v := bucket_eq_of_mem group (List.getLast_mem g_ne) hv
      _ = bucket millis w := same
      _ = bucket millis (h.head h_ne) := bucket_eq_of_mem next hw (List.head_mem h_ne)
  exact absurd cut (ne_of_beq_false apart)

/-! ## Sorted series -/

/-- A sorted series is in order of time, so also in order of the buckets. -/
theorem pairwise_sort (s : Series) (millis : Int) :
    s.sort.Pairwise fun v w => bucket millis v ≤ bucket millis w := by
  have byTime : s.sort.Pairwise fun v w => decide (v.tickTime.toInt ≤ w.tickTime.toInt) = true := by
    refine List.pairwise_mergeSort ?_ ?_ s
    · intro a b c ab bc
      simp only [decide_eq_true_eq] at ab bc ⊢
      omega
    · intro a b
      simp only [Bool.or_eq_true, decide_eq_true_eq]
      omega
  exact byTime.imp fun le => bucket_mono (of_decide_eq_true le)

/-- Groups in order of their buckets, neighbours of different ones, are all of different ones. -/
theorem pairwise_lt_of_isChain {groups : List Series} (nonempty : ∀ g ∈ groups, g ≠ [])
    (le : groups.Pairwise fun g h => ∀ v ∈ g, ∀ w ∈ h, bucket millis v ≤ bucket millis w)
    (apart : groups.IsChain fun g h => ∀ v ∈ g, ∀ w ∈ h, bucket millis v ≠ bucket millis w) :
    groups.Pairwise fun g h => ∀ v ∈ g, ∀ w ∈ h, bucket millis v < bucket millis w := by
  induction groups with
  | nil => exact .nil
  | cons g rest ih =>
    obtain ⟨first, others⟩ := List.pairwise_cons.mp le
    refine List.pairwise_cons.mpr ⟨?_, ih (fun h hh => nonempty h (.tail _ hh)) others apart.of_cons⟩
    intro h hh v hv w hw
    cases rest with
    | nil => cases hh
    | cons next later =>
      have before : ∀ x ∈ next, bucket millis v < bucket millis x := fun x hx =>
        lt_of_le_of_ne (first next (.head _) v hv x hx)
          ((List.isChain_cons_cons.mp apart).1 v hv x hx)
      rcases List.mem_cons.mp hh with rfl | hh
      · exact before w hw
      · -- The next group has a value, which lies between the two.
        obtain ⟨x, hx⟩ := List.exists_mem_of_ne_nil next (nonempty next (.tail _ (.head _)))
        exact lt_of_lt_of_le (before x hx) ((List.pairwise_cons.mp others).1 h hh x hx w hw)

/-- The groups of a sorted series are in strict order of their buckets. -/
theorem pairwise_groupBy_sort (s : Series) (millis : Int) :
    (s.sort.groupBy millis).Pairwise fun g h =>
      ∀ v ∈ g, ∀ w ∈ h, bucket millis v < bucket millis w := by
  have sorted := s.pairwise_sort millis
  rw [← s.sort.flatten_groupBy millis, List.pairwise_flatten] at sorted
  exact pairwise_lt_of_isChain (fun _ => ne_nil_of_mem_groupBy) sorted.2 (s.sort.isChain_groupBy millis)

/-- So each group of a sorted series is all that falls into its bucket. -/
theorem eq_filter_of_mem (group : g ∈ s.sort.groupBy millis) (hv : v ∈ g) :
    g = s.sort.filter fun w => bucket millis w == bucket millis v := by
  obtain ⟨before, after, groups⟩ := List.append_of_mem group
  have order := s.pairwise_groupBy_sort millis
  rw [groups, List.pairwise_append, List.pairwise_cons] at order
  obtain ⟨-, ⟨later, -⟩, earlier⟩ := order
  have none_before : before.flatten.filter (fun w => bucket millis w == bucket millis v) = [] := by
    refine List.filter_eq_nil_iff.mpr fun w hw same => ?_
    obtain ⟨h, hh, hw⟩ := List.mem_flatten.mp hw
    exact (earlier h hh g (.head _) w hw v hv).ne (eq_of_beq same)
  have none_after : after.flatten.filter (fun w => bucket millis w == bucket millis v) = [] := by
    refine List.filter_eq_nil_iff.mpr fun w hw same => ?_
    obtain ⟨h, hh, hw⟩ := List.mem_flatten.mp hw
    exact (later h hh v hv w hw).ne' (eq_of_beq same)
  have all_inside : g.filter (fun w => bucket millis w == bucket millis v) = g :=
    List.filter_eq_self.mpr fun w hw => beq_iff_eq.mpr (bucket_eq_of_mem group hw hv)
  rw [← s.sort.flatten_groupBy millis, groups, List.flatten_append, List.flatten_cons,
    List.filter_append, List.filter_append, none_before, none_after, all_inside, List.append_nil,
    List.nil_append]

/-- **Bucketing loses nothing.** Cut any series, in order or not, into buckets of some
milliseconds, fewer than one counting as one. The groups put together are the series. No group is
empty, and the times of its values, divided by the length of a bucket, round down to one number.
Groups next to each other have different numbers. If the series is sorted before, the numbers
increase from group to group, so that each group is all that has its number. -/
theorem grouping_loses_nothing (s : Series) (millis : Int) :
    let number (v : Indicator) : Int := ⌊(v.tickTime.toInt : ℚ) / (max millis 1 : Int)⌋
    (s.groupBy millis).flatten = s ∧
      (∀ g ∈ s.groupBy millis, g ≠ [] ∧ ∃ n, ∀ v ∈ g, number v = n) ∧
      ((s.groupBy millis).IsChain fun g h => ∀ v ∈ g, ∀ w ∈ h, number v ≠ number w) ∧
      ((s.sort.groupBy millis).Pairwise fun g h => ∀ v ∈ g, ∀ w ∈ h, number v < number w) ∧
      ∀ g ∈ s.sort.groupBy millis, ∀ v ∈ g, g = s.sort.filter fun w => number w == number v := by
  intro number
  have rounded : number = bucket millis := funext fun v => (bucket_eq_floor millis v).symm
  rw [rounded]
  refine ⟨s.flatten_groupBy millis, fun g group => ⟨ne_nil_of_mem_groupBy group, ?_⟩,
    s.isChain_groupBy millis, s.pairwise_groupBy_sort millis, fun g group v hv => ?_⟩
  · obtain ⟨w, hw⟩ := List.exists_mem_of_ne_nil g (ne_nil_of_mem_groupBy group)
    exact ⟨bucket millis w, fun v hv => bucket_eq_of_mem group hv hw⟩
  · exact eq_filter_of_mem group hv

/-- Values of some times. -/
def atTimes (times : List Int64) : Series := times.map fun t => { tickTime := t }

/-- Values of a second before the epoch and of two after it. The first second is entered twice as
long as the series is not in order. -/
theorem grouping_loses_nothing_sample :
    let s := atTimes [-1, 0, 999, -1000, 1500]
    let number (v : Indicator) : Int := ⌊(v.tickTime.toInt : ℚ) / (max 1000 1 : Int)⌋
    s.groupBy 1000 = [[-1], [0, 999], [-1000], [1500]].map atTimes ∧
      (s.groupBy 1000).flatten = s ∧
      s.sort.groupBy 1000 = [[-1000, -1], [0, 999], [1500]].map atTimes ∧
      (s.sort.groupBy 1000).Pairwise fun g h => ∀ v ∈ g, ∀ w ∈ h, number v < number w := by
  intro s number
  obtain ⟨whole, -, -, increasing, -⟩ := grouping_loses_nothing s 1000
  have sorted : s.sort = atTimes [-1000, -1, 0, 999, 1500] := by
    simp [s, atTimes, sort, List.mergeSort, List.MergeSort.Internal.splitInTwo]
  refine ⟨by decide +kernel, whole, ?_, increasing⟩
  rw [sorted]
  decide +kernel

end MarketStream.Indicator.Series
