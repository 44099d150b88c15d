import Mathlib.Data.List.Basic
import MarketStream.Bus.Segments

/-!
# The segments of a payload

Splitting a payload cuts it into consecutive pieces and numbers them from one. A payload whose
length is a signed 64-bit number has no more segments than that, so the numbers mean what they say.

* `chunks_flatten` — the pieces put together are the payload;
* `Segment` — what is known of a segment of a payload;
* `pairwise_split` — the segments come in the order of their numbers.
-/

namespace MarketStream.Bus

/-! ## Pieces -/

theorem pieces_nil (size fuel : Nat) : pieces size fuel [] = [] := by
  cases fuel <;> rfl

theorem pieces_cons {size fuel : Nat} {bytes : Bytes} (h : bytes ≠ []) :
    pieces size (fuel + 1) bytes = bytes.take size :: pieces size fuel (bytes.drop size) := by
  rw [pieces, if_neg h]

/-- With fuel for every byte the pieces put together are what was cut. -/
theorem pieces_flatten {size : Nat} (pos : 0 < size) {fuel : Nat} {bytes : Bytes}
    (le : bytes.length ≤ fuel) : (pieces size fuel bytes).flatten = bytes := by
  induction fuel generalizing bytes with
  | zero =>
    obtain rfl := List.length_eq_zero_iff.mp (Nat.le_zero.mp le)
    rfl
  | succ fuel ih =>
    by_cases h : bytes = []
    · rw [h, pieces_nil]
      rfl
    · have := List.length_pos_iff.mpr h
      rw [pieces_cons h, List.flatten_cons, ih (by rw [List.length_drop]; omega)]
      exact List.take_append_drop size bytes

/-- There are no more pieces than bytes. -/
theorem pieces_length_le {size : Nat} (pos : 0 < size) (fuel : Nat) (bytes : Bytes) :
    (pieces size fuel bytes).length ≤ bytes.length := by
  induction fuel generalizing bytes with
  | zero => exact Nat.zero_le _
  | succ fuel ih =>
    by_cases h : bytes = []
    · rw [h, pieces_nil]
      exact Nat.le_refl _
    · have := List.length_pos_iff.mpr h
      have := ih (bytes.drop size)
      rw [List.length_drop] at this
      rw [pieces_cons h, List.length_cons]
      omega

/-- The pieces put together are the payload. -/
theorem chunks_flatten (payload : Bytes) (size : Nat) :
    (chunks payload size).flatten = payload := by
  rw [chunks]
  split
  · next h => rw [h]; rfl
  · exact pieces_flatten (by omega) (Nat.le_refl _)

theorem chunks_ne_nil (payload : Bytes) (size : Nat) : chunks payload size ≠ [] := by
  intro h
  rw [chunks] at h
  split at h
  · cases h
  · next ne =>
    have pos : 0 < max size 1 := by omega
    have := pieces_flatten pos (Nat.le_refl payload.length)
    rw [h] at this
    exact ne this.symm

theorem chunks_length_le (payload : Bytes) (size : Nat) :
    (chunks payload size).length ≤ max 1 payload.length := by
  rw [chunks]
  split
  · exact Nat.le_max_left 1 _
  · exact Nat.le_trans (pieces_length_le (by omega) _ _) (Nat.le_max_right 1 _)

/-! ## Segments -/

variable {id : Int64} {payload : Bytes} {size : Nat}

@[simp] theorem length_split : (split id payload size).length = (chunks payload size).length := by
  simp [split]

/-- A payload of a length that fits 64 bits has as few segments. -/
theorem length_split_lt (id : Int64) (size : Nat) (small : payload.length < 0x8000000000000000) :
    (split id payload size).length < 0x8000000000000000 := by
  have := chunks_length_le payload size
  rw [length_split]
  omega

theorem length_split_pos (id : Int64) (payload : Bytes) (size : Nat) :
    0 < (split id payload size).length := by
  rw [length_split]
  exact List.length_pos_iff.mpr (chunks_ne_nil payload size)

theorem exists_mem_split (id : Int64) (payload : Bytes) (size : Nat) :
    ∃ s, s ∈ split id payload size :=
  List.exists_mem_of_length_pos (length_split_pos id payload size)

/-- The segments' payloads put together are the payload. -/
theorem flatMap_payload_split (id : Int64) (payload : Bytes) (size : Nat) :
    (split id payload size).flatMap Reply.payload = payload := by
  have parts : (split id payload size).map Reply.payload = chunks payload size := by
    rw [split, List.map_map]
    exact List.zipIdx_map_fst 1 _
  rw [List.flatMap_def, parts, chunks_flatten]

theorem id_of_mem_split {s : Reply} (h : s ∈ split id payload size) : s.id = id := by
  obtain ⟨_, _, rfl⟩ := List.mem_map.mp h
  rfl

/-- What a segment of a payload carries beside its bytes. -/
structure Segment (id : Int64) (count : Nat) (s : Reply) : Prop where
  /-- The number of the request. -/
  id_eq : s.id = id
  /-- How many segments there are. -/
  numSeq_eq : s.numSeq.toInt = count
  /-- It is numbered from one. -/
  one_le : 1 ≤ s.seq.toInt
  /-- Its number is one of theirs. -/
  le_count : s.seq.toInt ≤ count
  /-- It reports no failure. -/
  error_eq : s.error = ""

theorem segment_of_mem_split (small : payload.length < 0x8000000000000000) {s : Reply}
    (h : s ∈ split id payload size) : Segment id (split id payload size).length s := by
  have fits := length_split_lt id size small
  rw [length_split] at fits ⊢
  obtain ⟨⟨part, seq⟩, hs, rfl⟩ := List.mem_map.mp h
  obtain ⟨ge, lt, -⟩ := List.mem_zipIdx hs
  have seq_eq : (Int64.ofNat seq).toInt = seq := Int64.toInt_ofNat_of_lt (by omega)
  refine ⟨rfl, Int64.toInt_ofNat_of_lt fits, ?_, ?_, rfl⟩
  · rw [seq_eq]
    omega
  · rw [seq_eq]
    omega

/-- The segments come in the order of their numbers. -/
theorem pairwise_split (small : payload.length < 0x8000000000000000) :
    (split id payload size).Pairwise fun s t => s.seq.toInt < t.seq.toInt := by
  have fits := length_split_lt id size small
  rw [length_split] at fits
  rw [split, List.pairwise_map, List.pairwise_iff_getElem]
  intro i j hi hj lt
  rw [List.length_zipIdx] at hi hj
  rw [List.getElem_zipIdx, List.getElem_zipIdx]
  dsimp only
  rw [Int64.toInt_ofNat_of_lt (by omega), Int64.toInt_ofNat_of_lt (by omega)]
  omega

end MarketStream.Bus
