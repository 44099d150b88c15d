import MarketStream.Bus.Envelope
import MarketStream.Proofs.Json.Record
import MarketStream.Proofs.Text.Base64

/-!
# Reading envelopes back

An envelope says what was put into it, and an envelope of one kind is never taken for one of the
other: a request has no segment number and a reply has no topic to reply to.

* `payload?_writePayload` — a payload is read back;
* `Request.decode?_encode`, `Reply.decode?_encode` — so is an envelope;
* `Request.decode?_reply`, `Reply.decode?_request` — the kinds are told apart;
* `envelopes_survive_wire` — both kinds of envelopes, with the text of their payloads.
-/

namespace MarketStream.Bus

open Json

/-! ## Payloads -/

theorem escape_letter : ∀ n < 64, escape (Base64.letter n) = [Base64.letter n] := by decide

/-- What base64 is written with stands in a string as itself. -/
theorem escape_of_isLetter {c : Char} (h : Base64.IsLetter c) : escape c = [c] := by
  rcases h with rfl | ⟨n, hn, rfl⟩
  · rfl
  · exact escape_letter n hn

/-- A payload is written as the text of its base64. -/
theorem writePayload_eq_quote (payload : Bytes) :
    writePayload payload = quote (String.ofList (Base64.encode payload)) := by
  have plain : (Base64.encode payload).flatMap escape = Base64.encode payload := by
    have each : ∀ c ∈ Base64.encode payload, escape c = [c] := fun c hc =>
      escape_of_isLetter (Base64.isLetter_of_mem_encode hc)
    rw [List.flatMap_def, List.map_congr_left each, ← List.flatMap_def, List.flatMap_singleton']
  rw [writePayload, quote, String.toList_ofList, plain]

theorem isValue_writePayload (payload : Bytes) : IsValue (writePayload payload) :=
  writePayload_eq_quote payload ▸ isValue_quote _

/-- A written payload is read back. -/
theorem payload?_writePayload (payload : Bytes) :
    payload? ((writePayload payload).map some) = some payload := by
  have notNull : isNull ((writePayload payload).map some) = false := rfl
  rw [payload?, notNull, writePayload_eq_quote, string?_quote, Option.bind_some,
    String.toList_ofList, Base64.decode?_encode]
  rfl

/-! ## Envelopes -/

namespace Request

/-- What stands under each name of a written request. -/
def entries (r : Request) : List (String × List Char) :=
  [("MsgId", Text.integer r.id.toInt), ("ReplyTo", quote r.replyTo),
    ("Payload", writePayload r.payload)]

theorem decodeFields?_encode (r : Request) (names : List String) :
    decodeFields? names r.encode = some (given names r.entries) := by
  refine decodeFields?_record names ?_ ?_
  · simp [isValue_integer, isValue_quote, isValue_writePayload]
  · simp

end Request

namespace Reply

/-- What stands under each name of a written reply. -/
def entries (r : Reply) : List (String × List Char) :=
  [("MsgId", Text.integer r.id.toInt), ("Seq", Text.integer r.seq.toInt),
    ("NumSeq", Text.integer r.numSeq.toInt), ("Payload", writePayload r.payload),
    ("Error", quote r.error)]

theorem decodeFields?_encode (r : Reply) (names : List String) :
    decodeFields? names r.encode = some (given names r.entries) := by
  refine decodeFields?_record names ?_ ?_
  · simp [isValue_integer, isValue_quote, isValue_writePayload]
  · simp

end Reply

namespace Request

theorem decode?_eq (bytes : Bytes) :
    decode? bytes = (decodeFields? ["MsgId", "ReplyTo", "Payload"] bytes).bind fun fields => do
      let id ← fields.required "MsgId" Json.int64?
      let replyTo ← fields.required "ReplyTo" Json.text?
      let payload ← fields.orElse "Payload" [] payload?
      return ⟨id, replyTo, payload⟩ := by
  rw [decode?, decodeFields?, Option.bind_assoc]
  rfl

/-- A request is read back. -/
theorem decode?_encode (r : Request) : decode? r.encode = some r := by
  rw [decode?_eq, decodeFields?_encode, Option.bind_some,
    required_given (n := "MsgId") (by simp) rfl,
    required_given (n := "ReplyTo") (by simp) rfl,
    orElse_given (n := "Payload") (by simp) rfl, int64?_integer, Json.text?, string?_quote,
    payload?_writePayload]
  rfl

/-- A reply is not taken for a request. -/
theorem decode?_reply (r : Reply) : decode? r.encode = none := by
  rw [decode?_eq, r.decodeFields?_encode, Option.bind_some,
    required_given (n := "MsgId") (by simp) rfl,
    required_given_of_none (n := "ReplyTo") (by simp) rfl, int64?_integer]
  rfl

end Request

namespace Reply

theorem decode?_eq (bytes : Bytes) :
    decode? bytes =
      (decodeFields? ["MsgId", "Seq", "NumSeq", "Payload", "Error"] bytes).bind fun fields => do
        let id ← fields.required "MsgId" Json.int64?
        let seq ← fields.required "Seq" Json.int64?
        let numSeq ← fields.required "NumSeq" Json.int64?
        let payload ← fields.orElse "Payload" [] payload?
        let error ← fields.orElse "Error" "" Json.text?
        return ⟨id, seq, numSeq, payload, error⟩ := by
  rw [decode?, decodeFields?, Option.bind_assoc]
  rfl

/-- A reply is read back. -/
theorem decode?_encode (r : Reply) : decode? r.encode = some r := by
  rw [decode?_eq, decodeFields?_encode, Option.bind_some,
    required_given (n := "MsgId") (by simp) rfl, required_given (n := "Seq") (by simp) rfl,
    required_given (n := "NumSeq") (by simp) rfl,
    orElse_given (n := "Payload") (by simp) rfl, orElse_given (n := "Error") (by simp) rfl,
    int64?_integer, int64?_integer, int64?_integer, Json.text?, string?_quote,
    payload?_writePayload]
  rfl

/-- A request is not taken for a reply. -/
theorem decode?_request (r : Request) : decode? r.encode = none := by
  rw [decode?_eq, r.decodeFields?_encode, Option.bind_some,
    required_given (n := "MsgId") (by simp) rfl,
    required_given_of_none (n := "Seq") (by simp) rfl, int64?_integer]
  rfl

end Reply

/-- **Envelopes survive the wire.** Whatever numbers, texts and bytes a request or a segment of a
reply holds, it is read back from the bytes it is written as. The payload travels in base64, where a
text stands for a payload only if it is the one that is written for it. -/
theorem envelopes_survive_wire :
    (∀ r : Request, Request.decode? r.encode = some r) ∧
      (∀ r : Reply, Reply.decode? r.encode = some r) ∧
      ∀ (payload : Bytes) (text : List Char),
        Base64.decode? text = some payload ↔ text = Base64.encode payload :=
  ⟨Request.decode?_encode, Reply.decode?_encode, fun _ _ => Base64.decode?_eq_some_iff⟩

end MarketStream.Bus
