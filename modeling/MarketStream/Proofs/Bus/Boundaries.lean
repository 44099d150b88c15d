import Mathlib.Algebra.Order.Floor.Div
import MarketStream.Proofs.Bus.Splitting

/-!
# Where a payload is cut

The segments of a payload carry its stretches of one length, one after another, as many as it takes
to cover it; so all of them are full but perhaps the last. A payload without bytes still has one.

* `stretch` — the bytes of a payload that one segment carries;
* `pieces_eq_map`, `chunks_eq_map` — cutting gives the stretches in order;
* `split_eq_map` — so the segments are known one by one;
* `segments_bounded_and_numbered` — their count, their numbers and their lengths.
-/

namespace MarketStream.Bus

/-! ## Stretches -/

/-- The bytes at a place, counted from zero, when bytes are cut every `size` bytes. -/
def stretch (bytes : Bytes) (size place : Nat) : Bytes := (bytes.drop (place * size)).take size

theorem length_stretch (bytes : Bytes) (size place : Nat) :
    (stretch bytes size place).length = min size (bytes.length - place * size) := by
  rw [stretch, List.length_take, List.length_drop]

theorem stretch_zero (bytes : Bytes) (size : Nat) : stretch bytes size 0 = bytes.take size := by
  rw [stretch, Nat.zero_mul, List.drop_zero]

/-- After the first stretch come those of the remaining bytes. -/
theorem stretch_succ (bytes : Bytes) (size place : Nat) :
    stretch bytes size (place + 1) = stretch (bytes.drop size) size place := by
  rw [stretch, stretch, List.drop_drop, Nat.succ_mul, Nat.add_comm]

/-- Something is covered by one stretch and those that cover the rest. -/
theorem ceilDiv_eq_succ {n size : Nat} (pos : 0 < size) (n_pos : 0 < n) :
    n ⌈/⌉ size = (n - size) ⌈/⌉ size + 1 := by
  have rounded : n + size - 1 = n - 1 + size := by omega
  rw [Nat.ceilDiv_eq_add_pred_div, Nat.ceilDiv_eq_add_pred_div, rounded, Nat.add_div_right _ pos]
  by_cases more : size ≤ n
  · rw [show n - size + size - 1 = n - 1 by omega]
  · rw [Nat.div_eq_of_lt (by omega), Nat.div_eq_of_lt (by omega)]

/-! ## Cutting -/

/-- With fuel for every byte the pieces are the stretches in order, as many as cover all bytes. -/
theorem pieces_eq_map {size : Nat} (pos : 0 < size) {fuel : Nat} {bytes : Bytes}
    (le : bytes.length ≤ fuel) :
    pieces size fuel bytes = (List.range (bytes.length ⌈/⌉ size)).map (stretch bytes size) := by
  induction fuel generalizing bytes with
  | zero =>
    obtain rfl := List.length_eq_zero_iff.mp (Nat.le_zero.mp le)
    rw [List.length_nil, zero_ceilDiv]
    rfl
  | succ fuel ih =>
    by_cases h : bytes = []
    · rw [h, pieces_nil, List.length_nil, zero_ceilDiv]
      rfl
    · have length_pos := List.length_pos_iff.mpr h
      have fewer : (bytes.drop size).length ≤ fuel := by
        rw [List.length_drop]
        omega
      have others : stretch bytes size ∘ Nat.succ = stretch (bytes.drop size) size :=
        funext (stretch_succ bytes size)
      rw [pieces_cons h, ih fewer, List.length_drop, ceilDiv_eq_succ pos length_pos,
        List.range_succ_eq_map, List.map_cons, List.map_map, others, stretch_zero]

/-- How many segments a payload has. -/
def segmentCount (payload : Bytes) (size : Nat) : Nat := max 1 (payload.length ⌈/⌉ max size 1)

/-- The payloads of the segments are the stretches in order. -/
theorem chunks_eq_map (payload : Bytes) (size : Nat) :
    chunks payload size
      = (List.range (segmentCount payload size)).map (stretch payload (max size 1)) := by
  have pos : 0 < max size 1 := by omega
  rw [chunks, segmentCount]
  by_cases h : payload = []
  · rw [if_pos h, h, List.length_nil, zero_ceilDiv]
    simp [stretch]
  · have covered : 1 ≤ payload.length ⌈/⌉ max size 1 := by
      rw [ceilDiv_eq_succ pos (List.length_pos_iff.mpr h)]
      omega
    rw [if_neg h, pieces_eq_map pos (Nat.le_refl _), Nat.max_eq_right covered]

/-- The segment at a place, counted from zero. -/
def segmentAt (id : Int64) (payload : Bytes) (size place : Nat) : Reply :=
  ⟨id, .ofNat (place + 1), .ofNat (segmentCount payload size), stretch payload (max size 1) place,
    ""⟩

/-- The segments one by one. -/
theorem split_eq_map (id : Int64) (payload : Bytes) (size : Nat) :
    split id payload size
      = (List.range (segmentCount payload size)).map (segmentAt id payload size) := by
  have count : (chunks payload size).length = segmentCount payload size := by
    rw [chunks_eq_map, List.length_map, List.length_range]
  rw [split, count, chunks_eq_map]
  refine List.ext_getElem (by simp) fun place _ _ => ?_
  simp [segmentAt, Nat.add_comm]

/-! ## Lengths -/

variable {id : Int64} {payload : Bytes} {size place : Nat}

/-- Before the last place a stretch is full. -/
theorem length_stretch_of_lt (before : place + 1 < segmentCount payload size) :
    (stretch payload (max size 1) place).length = max size 1 := by
  have pos : 0 < max size 1 := by omega
  have uncovered : ¬ payload.length ⌈/⌉ max size 1 ≤ place + 1 := by
    rw [segmentCount] at before
    omega
  rw [ceilDiv_le_iff_le_mul pos, Nat.mul_succ, Nat.mul_comm] at uncovered
  rw [length_stretch]
  omega

/-- At the last place a stretch is empty only if the payload is. -/
theorem stretch_eq_nil_iff (last : place + 1 = segmentCount payload size) :
    stretch payload (max size 1) place = [] ↔ payload = [] := by
  have pos : 0 < max size 1 := by omega
  have covered := ceilDiv_le_iff_le_mul (b := payload.length) (c := place) pos
  rw [Nat.mul_comm] at covered
  rw [segmentCount] at last
  rw [← List.length_eq_zero_iff, length_stretch, ← List.length_eq_zero_iff]
  cases place with
  | zero => omega
  | succ before => omega

/-- **Segments are bounded and numbered.** Whatever a reply carries, and however many bytes a
segment may hold (none counts as one), it has as many segments as it takes to cover the payload, at
least one. They are numbered from one, each knows how many there are and which request they answer,
and none reports a failure. All but the last are full; the last holds no more than the others, and
nothing only if the payload is empty. Put together they are the payload. No payload is longer than
what a signed 64-bit number can say. -/
theorem segments_bounded_and_numbered (id : Int64) (payload : Bytes) (size : Nat)
    (small : payload.length < 0x8000000000000000) :
    let full := max size 1
    let count := max 1 (payload.length ⌈/⌉ full)
    let segments := split id payload size
    segments.length = count ∧
      (∀ (i : Nat) (h : i < segments.length), let s := segments[i]
        s.seq.toInt = i + 1 ∧ s.numSeq.toInt = count ∧ s.id = id ∧ s.error = "") ∧
      (∀ s ∈ segments.dropLast, s.payload.length = full) ∧
      (∀ s ∈ segments.getLast?, s.payload.length ≤ full ∧ (s.payload = [] ↔ payload = [])) ∧
      segments.flatMap Reply.payload = payload := by
  intro full count segments
  have parts : segments = (List.range count).map (segmentAt id payload size) :=
    split_eq_map id payload size
  have length : segments.length = count := by rw [parts, List.length_map, List.length_range]
  have fits : count < 0x8000000000000000 := length ▸ length_split_lt id size small
  obtain ⟨final, counted⟩ : ∃ final, count = final + 1 := Nat.exists_eq_succ_of_ne_zero (by omega)
  -- The last segment is the only one that need not be full.
  have ended : segments
      = (List.range final).map (segmentAt id payload size) ++ [segmentAt id payload size final] := by
    rw [parts, counted, List.range_succ, List.map_append]
    rfl
  refine ⟨length, ?_, ?_, ?_, flatMap_payload_split id payload size⟩
  · intro i h
    have within : i < count := length ▸ h
    have seq_eq : (Int64.ofNat (i + 1)).toInt = i + 1 := Int64.toInt_ofNat_of_lt (by omega)
    simp only [parts, List.getElem_map, List.getElem_range]
    exact ⟨seq_eq, Int64.toInt_ofNat_of_lt fits, rfl, rfl⟩
  · intro s mem
    rw [ended, List.dropLast_concat] at mem
    obtain ⟨place, before, rfl⟩ := List.mem_map.mp mem
    rw [List.mem_range] at before
    refine length_stretch_of_lt ?_
    show place + 1 < count
    omega
  · intro s last
    rw [ended, List.getLast?_concat, Option.mem_some] at last
    subst last
    refine ⟨?_, stretch_eq_nil_iff counted.symm⟩
    show (stretch payload full final).length ≤ full
    rw [length_stretch]
    exact Nat.min_le_left ..

/-- Seven bytes in segments of three: two full ones, and one of a single byte. -/
theorem segments_bounded_and_numbered_sample :
    let payload : Bytes := [1, 2, 3, 4, 5, 6, 7]
    let segments := split 42 payload 3
    payload.length < 0x8000000000000000 ∧
      segments.map (fun s => (s.seq, s.numSeq, s.payload))
        = [(1, 3, [1, 2, 3]), (2, 3, [4, 5, 6]), (3, 3, [7])] ∧
      (∀ s ∈ segments.dropLast, s.payload.length = 3) ∧
      segments.flatMap Reply.payload = payload := by
  intro payload segments
  have small : payload.length < 0x8000000000000000 := by decide
  obtain ⟨-, -, full, -, whole⟩ := segments_bounded_and_numbered 42 payload 3 small
  exact ⟨small, by decide, full, whole⟩

end MarketStream.Bus
