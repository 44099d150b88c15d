import MarketStream.Text.Utf8

/-!
# Reading bytes leniently

A line break after some bytes is read as one, whatever they are: no character outside ASCII has a
byte that small, so the bytes before it are read as they are without it.

* `byte_of_small` — a small byte is a character of its own;
* `chars?_eq_some`, `decode_eq_some` — the strict reading, and one character at a position;
* `glyphs_append_newline` — the lenient reading of bytes and a line break after them.
-/

namespace MarketStream

/-- A byte below 128 is the number of the character that it belongs to. -/
theorem byte_of_small {c : Char} {b : UInt8} (mem : b ∈ String.utf8EncodeChar c)
    (small : b.toNat < 128) : c.toNat = b.toNat := by
  have large {n : Nat} (low : 128 ≤ n) (high : n < 256) : b ≠ .ofNat n := by
    rintro rfl
    rw [UInt8.toNat_ofNat_of_lt' high] at small
    omega
  rw [String.utf8EncodeChar] at mem
  split at mem
  · next ascii =>
    obtain rfl := List.mem_singleton.mp mem
    rw [UInt8.toNat_ofNat_of_lt' (Nat.lt_of_le_of_lt ascii (by decide))]
    rfl
  split at mem
  · simp only [List.mem_cons, List.not_mem_nil, or_false] at mem
    rcases mem with eq | eq <;> exact absurd eq (large (by omega) (by omega))
  split at mem
  · simp only [List.mem_cons, List.not_mem_nil, or_false] at mem
    rcases mem with eq | eq | eq <;> exact absurd eq (large (by omega) (by omega))
  · simp only [List.mem_cons, List.not_mem_nil, or_false] at mem
    rcases mem with eq | eq | eq | eq <;> exact absurd eq (large (by omega) (by omega))

variable {bytes : Bytes} {cs : List Char} {c : Char}

/-- The strict reading gives the characters that the bytes are those of. -/
theorem chars?_eq_some : chars? bytes = some cs ↔ utf8 cs = bytes := by
  constructor
  · intro read
    rw [chars?, Option.map_eq_some_iff] at read
    obtain ⟨found, decoded, rfl⟩ := read
    have isSome : bytes.toByteArray.utf8Decode?.isSome := decoded ▸ rfl
    have same := ByteArray.utf8Encode_get_utf8Decode? (h := isSome)
    have got : bytes.toByteArray.utf8Decode?.get isSome = found := Option.get_of_eq_some _ decoded
    rw [got] at same
    exact List.toByteArray_inj.mp same
  · rintro rfl
    exact chars?_utf8 cs

theorem utf8_append (cs more : List Char) : utf8 (cs ++ more) = utf8 cs ++ utf8 more :=
  List.flatMap_append

/-- The character that ends in the byte of a line break is one. -/
theorem eq_newline_of_append {front : Bytes}
    (h : front ++ String.utf8EncodeChar c = bytes ++ [10]) : c = '\n' ∧ front = bytes := by
  have mem : (10 : UInt8) ∈ String.utf8EncodeChar c := by
    rcases List.eq_nil_or_concat (String.utf8EncodeChar c) with nothing | ⟨before, last, split⟩
    · have some_ := c.utf8Size_pos
      rw [← String.length_utf8EncodeChar, nothing] at some_
      exact absurd some_ (Nat.lt_irrefl 0)
    · rw [split, List.concat_eq_append, ← List.append_assoc] at h
      obtain rfl := List.singleton_inj.mp (List.append_inj' h rfl).2
      rw [split, List.concat_eq_append]
      exact List.mem_append_right before List.mem_cons_self
  obtain rfl : c = '\n' := Char.toNat_inj.mp (byte_of_small mem (by decide))
  exact ⟨rfl, (List.append_inj' h rfl).1⟩

/-! ## One character at a position -/

theorem extract_toByteArray (bytes : Bytes) (i : Nat) :
    bytes.toByteArray.extract i bytes.toByteArray.size = (bytes.drop i).toByteArray := by
  apply ByteArray.ext
  have all : (bytes.drop i).take (bytes.length - i) = bytes.drop i :=
    List.take_of_length_le (Nat.le_of_eq List.length_drop)
  simp [all]

/-- A character is read at a position if the bytes from there on start with those of it. -/
theorem decode_eq_some {i : Nat} :
    bytes.toByteArray.utf8DecodeChar? i = some c
      ↔ ∃ rest, bytes.drop i = String.utf8EncodeChar c ++ rest := by
  rw [ByteArray.utf8DecodeChar?_eq_utf8DecodeChar?_extract, extract_toByteArray]
  constructor
  · intro read
    obtain ⟨rest, same⟩ := ByteArray.exists_of_utf8DecodeChar?_eq_some read
    have whole : rest = rest.data.toList.toByteArray := by
      apply ByteArray.ext
      simp
    rw [whole, ← List.toByteArray_append] at same
    exact ⟨_, List.toByteArray_inj.mp same⟩
  · rintro ⟨rest, same⟩
    rw [same, List.toByteArray_append]
    exact ByteArray.utf8DecodeChar?_utf8EncodeChar_append

/-- Before a line break that is put behind some bytes, the same character is read as without it. -/
theorem decode_append_newline {i : Nat} (inside : i < bytes.length) :
    (bytes ++ [10]).toByteArray.utf8DecodeChar? i = bytes.toByteArray.utf8DecodeChar? i := by
  refine Option.ext fun c => ?_
  rw [decode_eq_some, decode_eq_some, List.drop_append_of_le_length (Nat.le_of_lt inside)]
  constructor
  · rintro ⟨rest, same⟩
    rcases List.eq_nil_or_concat rest with rfl | ⟨front, last, rfl⟩
    · have alone : [] ++ String.utf8EncodeChar c = bytes.drop i ++ [10] := by
        rw [same, List.append_nil]
        rfl
      have nothing := (eq_newline_of_append alone).2
      exact absurd (List.drop_eq_nil_iff.mp nothing.symm) (Nat.not_le.mpr inside)
    · rw [List.concat_eq_append, ← List.append_assoc] at same
      exact ⟨front, (List.append_inj' same rfl).1⟩
  · rintro ⟨rest, same⟩
    exact ⟨rest ++ [10], by rw [same, List.append_assoc]⟩

theorem decode_newline (bytes : Bytes) :
    (bytes ++ [10]).toByteArray.utf8DecodeChar? bytes.length = some '\n' :=
  decode_eq_some.mpr ⟨[], List.drop_left⟩

/-! ## All positions -/

theorem resync_of_some {fuel i : Nat} {seen : List Glyph}
    (read : bytes.toByteArray.utf8DecodeChar? i = some c) :
    resync bytes.toByteArray (fuel + 1) i seen
      = resync bytes.toByteArray fuel (i + c.utf8Size) (some c :: seen) := by
  have inside := ByteArray.lt_size_of_isSome_utf8DecodeChar? (Option.isSome_of_eq_some read)
  rw [resync.eq_2, if_pos inside, read]

theorem resync_of_none {fuel i : Nat} {seen : List Glyph} (inside : i < bytes.length)
    (read : bytes.toByteArray.utf8DecodeChar? i = none) :
    resync bytes.toByteArray (fuel + 1) i seen
      = resync bytes.toByteArray fuel (i + 1) (none :: seen) := by
  rw [resync.eq_2, if_pos (List.size_toByteArray ▸ inside), read]

theorem resync_at_end {fuel i : Nat} {seen : List Glyph} (outside : bytes.length ≤ i) :
    resync bytes.toByteArray fuel i seen = seen.reverse := by
  cases fuel with
  | zero => rfl
  | succ fuel =>
    rw [resync.eq_2, if_neg (List.size_toByteArray ▸ Nat.not_lt.mpr outside)]

/-- From a position on, bytes and a line break after them are read as the bytes and a line break.
By induction on the glyphs that may still be read. -/
theorem resync_append_newline {fuel i : Nat} (inside : i ≤ bytes.length)
    (enough : bytes.length ≤ i + fuel) (seen : List Glyph) :
    resync (bytes ++ [10]).toByteArray (fuel + 1) i seen
      = resync bytes.toByteArray fuel i seen ++ [some '\n'] := by
  rcases Nat.lt_or_eq_of_le inside with before | rfl
  · cases fuel with
    | zero => omega
    | succ fuel =>
      cases read : bytes.toByteArray.utf8DecodeChar? i with
      | some c =>
        have fits := ByteArray.le_size_of_utf8DecodeChar?_eq_some read
        have pos := c.utf8Size_pos
        rw [List.size_toByteArray] at fits
        rw [resync_of_some read, resync_of_some ((decode_append_newline before).trans read)]
        exact resync_append_newline fits (by omega) _
      | none =>
        have longer : i < (bytes ++ [10]).length := by
          rw [List.length_append]
          omega
        rw [resync_of_none before read,
          resync_of_none longer ((decode_append_newline before).trans read)]
        exact resync_append_newline before (by omega) _
  · have size : (bytes ++ [10]).length ≤ bytes.length + '\n'.utf8Size := by
      rw [List.length_append]
      exact Nat.le_refl _
    rw [resync_of_some (decode_newline bytes), resync_at_end size, resync_at_end (Nat.le_refl _)]
    exact List.reverse_cons

/-- Bytes that cannot be read strictly cannot be with a line break after them. -/
theorem chars?_append_newline (h : chars? bytes = none) : chars? (bytes ++ [10]) = none := by
  refine Option.eq_none_iff_forall_ne_some.mpr fun cs read => ?_
  have same := chars?_eq_some.mp read
  rcases List.eq_nil_or_concat cs with rfl | ⟨front, c, rfl⟩
  · exact absurd same.symm (List.append_ne_nil_of_right_ne_nil _ (List.cons_ne_nil _ _))
  · rw [List.concat_eq_append, utf8_append, utf8, utf8, List.flatMap_singleton] at same
    rw [chars?_eq_some.mpr (eq_newline_of_append same).2] at h
    cases h

/-- A line break after some bytes is read as one, and the bytes are read as without it. -/
theorem glyphs_append_newline (bytes : Bytes) :
    glyphs (bytes ++ [10]) = glyphs bytes ++ [some '\n'] := by
  cases read : chars? bytes with
  | some cs =>
    obtain rfl := chars?_eq_some.mp read
    have text : utf8 (cs ++ ['\n']) = utf8 cs ++ [10] := utf8_append ..
    rw [← text, glyphs_utf8, glyphs_utf8, List.map_append]
    rfl
  | none =>
    rw [glyphs, chars?_append_newline read, glyphs, read, List.length_append]
    exact resync_append_newline (Nat.zero_le _) (Nat.le_of_eq (Nat.zero_add _).symm) []

end MarketStream
