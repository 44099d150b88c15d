import MarketStream.Frame
import MarketStream.Proofs.Json.Embedding
import MarketStream.Proofs.Json.Record

/-!
# Frames survive being written

A payload is kept as the text that it was cut out as, so it is a value wherever it is put back. A
frame that was read can be written and read again, under any sequence number, and nothing of it
changes: neither the kind, nor the number, nor a character of the payload.

* `parse_encode_of_isValue` — a frame whose payload is a value is read back;
* `isValue_of_parse` — the payload of a frame that was read is one;
* `parse_encode_parse` — so the frame is read back.
-/

namespace MarketStream.Frame

open Json

/-- The names of the parts of a frame. -/
def parts : List String := ["type", "data", "seq"]

/-- What stands under each name of a written frame. -/
def entries (f : Frame) : List (String × List Char) :=
  [("type", quote f.kindName), ("data", f.data.toList)]
    ++ if f.seq = 0 then [] else [("seq", Text.integer f.seq.toInt)]

theorem parse_eq (bytes : Bytes) :
    parse bytes = readOr ((decodeFields? parts bytes).bind fun fields => do
      let kindName ← fields.required "type" Json.text?
      let data ← fields.orElse "data" noData rawText?
      let seq ← fields.orElse "seq" 0 Json.int64?
      return ⟨kindName, data, seq⟩) := by
  rw [parse, decodeFields?, Option.bind_assoc]
  rfl

theorem rawText?_map_some (cs : List Char) : rawText? (cs.map some) = some (String.ofList cs) := by
  rw [rawText?, chars?_map_some]
  rfl

theorem lookup_seq (f : Frame) :
    f.entries.lookup "seq" = if f.seq = 0 then none else some (Text.integer f.seq.toInt) := by
  rw [entries]
  split <;> rfl

theorem decodeFields?_encode (f : Frame) (value : IsValue f.data.toList) :
    decodeFields? parts f.encode = some (given parts f.entries) := by
  refine decodeFields?_record parts ?_ ?_
  · split <;> simp [isValue_quote, isValue_integer, value]
  · split <;> simp

/-- The number of a frame is read back, whether it is written or left out. -/
theorem seq_given (f : Frame) :
    (given parts f.entries).orElse "seq" 0 Json.int64? = some f.seq := by
  by_cases zero : f.seq = 0
  · rw [orElse_given_of_none (by simp [parts]) (by rw [lookup_seq, if_pos zero]), zero]
  · rw [orElse_given (by simp [parts]) (by rw [lookup_seq, if_neg zero]), int64?_integer]

/-- A frame whose payload is a value is read back. -/
theorem parse_encode_of_isValue (f : Frame) (value : IsValue f.data.toList) :
    parse f.encode = .ok f := by
  rw [parse_eq, decodeFields?_encode f value, Option.bind_some,
    required_given (n := "type") (by simp [parts]) rfl,
    orElse_given (n := "data") (by simp [parts]) rfl, seq_given,
    Json.text?, string?_quote, rawText?_map_some, String.ofList_toList]
  rfl

/-- What was read as the text of a payload is a value. -/
theorem isValue_of_rawText? {v : Input} {data : String} (cut : IsCut v)
    (h : rawText? v = some data) : IsValue data.toList := by
  obtain ⟨cs, chars, rfl⟩ := Option.map_eq_some_iff.mp h
  rw [String.toList_ofList]
  exact (eq_map_some_of_chars? chars ▸ cut).isValue

/-- The payload of a frame that was read is a value. -/
theorem isValue_of_parse {bytes : Bytes} {f : Frame} (h : parse bytes = .ok f) :
    IsValue f.data.toList := by
  rw [parse_eq] at h
  obtain ⟨fields, decoded, read⟩ := Option.bind_eq_some_iff.mp (readOr_eq_ok.mp h)
  obtain ⟨kindName, -, read⟩ := Option.bind_eq_some_iff.mp read
  obtain ⟨data, found, read⟩ := Option.bind_eq_some_iff.mp read
  obtain ⟨seq, -, read⟩ := Option.bind_eq_some_iff.mp read
  obtain rfl := Option.some.inj read
  obtain ⟨input, -, record⟩ := Option.bind_eq_some_iff.mp decoded
  rw [Fields.orElse] at found
  split at found
  · next v given => exact isValue_of_rawText? (isCut_of_field? record given) found
  · obtain rfl := Option.some.inj found
    exact (show noData.toList = writeNull by decide) ▸ isValue_null

/-- **A frame survives being written.** A frame that was read from any bytes is read back from the
bytes it is written as, and so is the same frame under any other sequence number: kind, number and
every character of the payload. -/
theorem parse_encode_parse {bytes : Bytes} {f : Frame} (h : parse bytes = .ok f) :
    parse f.encode = .ok f ∧ ∀ n, parse (f.withSeq n).encode = .ok (f.withSeq n) := by
  have value := isValue_of_parse h
  exact ⟨f.parse_encode_of_isValue value, fun n => (f.withSeq n).parse_encode_of_isValue value⟩

/-- A frame that lists its parts, with an escape in its kind and spaces, a long number and nested
brackets in its payload. -/
theorem parse_encode_parse_sample :
    let listed : Bytes := textBytes "[ \"p\\u0072ice\" , \x7b \"a\" : [ 1e999 , [ ] ] \x7d , -3 ]"
    let f : Frame := ⟨"price", "\x7b \"a\" : [ 1e999 , [ ] ] \x7d", -3⟩
    parse listed = .ok f ∧ parse f.encode = .ok f ∧
      parse (f.withSeq 0).encode = .ok (f.withSeq 0) := by
  intro listed f
  have read : parse listed = .ok f := by decide +kernel
  exact ⟨read, (parse_encode_parse read).1, (parse_encode_parse read).2 0⟩

end MarketStream.Frame
