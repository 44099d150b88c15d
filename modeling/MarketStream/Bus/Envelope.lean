import MarketStream.Fault
import MarketStream.Json.Writer
import MarketStream.Text.Base64

/-!
# Envelopes

A bus only broadcasts. Requests and replies travel in envelopes that say which request they belong
to; payloads are arbitrary bytes, written in base64.

* `Request` — a request and the topic its replies are expected on;
* `Reply` — one segment of a reply, or the failure of the replying side.
-/

namespace MarketStream.Bus

/-- What is published to ask for something. -/
structure Request where
  /-- The number that every segment of the reply repeats. -/
  id : Int64
  /-- The topic that replies are expected on. -/
  replyTo : String
  /-- What is asked. -/
  payload : Bytes
deriving DecidableEq

/-- One segment of a reply. -/
structure Reply where
  /-- The number of the request. -/
  id : Int64
  /-- The number of the segment, from one. -/
  seq : Int64
  /-- How many segments the reply has. -/
  numSeq : Int64
  /-- The bytes of the segment. -/
  payload : Bytes
  /-- What went wrong on the replying side, empty if nothing did. -/
  error : String
deriving DecidableEq

/-- The text of a payload. -/
def writePayload (payload : Bytes) : List Char := '"' :: (Base64.encode payload ++ ['"'])

/-- Reads a payload from a delimited text; the absent value is the empty payload. -/
def payload? (input : Json.Input) : Option Bytes :=
  if Json.isNull input then some []
  else (Json.string? input).bind fun s => Base64.decode? s.toList

namespace Request

/-- The text of a request. -/
def write (r : Request) : List Char :=
  Json.record [("MsgId", Text.integer r.id.toInt), ("ReplyTo", Json.quote r.replyTo),
    ("Payload", writePayload r.payload)]

/-- The bytes of a request. -/
def encode (r : Request) : Bytes := utf8 r.write

/-- Reads a request from a delimited text. -/
def read? (input : Json.Input) : Option Request := do
  let fields ← Json.fields? ["MsgId", "ReplyTo", "Payload"] input
  let id ← fields.required "MsgId" Json.int64?
  let replyTo ← fields.required "ReplyTo" Json.text?
  let payload ← fields.orElse "Payload" [] payload?
  return ⟨id, replyTo, payload⟩

/-- Reads a request. -/
def decode? (bytes : Bytes) : Option Request := (Json.document? bytes).bind read?

end Request

namespace Reply

/-- Whether the replying side failed. -/
def isError (r : Reply) : Bool := r.error != ""

/-- The reply to a request that failed, in one segment. -/
def failure (id : Int64) (error : String) : Reply := ⟨id, 1, 1, [], error⟩

/-- The text of a reply. -/
def write (r : Reply) : List Char :=
  Json.record [("MsgId", Text.integer r.id.toInt), ("Seq", Text.integer r.seq.toInt),
    ("NumSeq", Text.integer r.numSeq.toInt), ("Payload", writePayload r.payload),
    ("Error", Json.quote r.error)]

/-- The bytes of a reply. -/
def encode (r : Reply) : Bytes := utf8 r.write

/-- Reads a reply from a delimited text. -/
def read? (input : Json.Input) : Option Reply := do
  let fields ← Json.fields? ["MsgId", "Seq", "NumSeq", "Payload", "Error"] input
  let id ← fields.required "MsgId" Json.int64?
  let seq ← fields.required "Seq" Json.int64?
  let numSeq ← fields.required "NumSeq" Json.int64?
  let payload ← fields.orElse "Payload" [] payload?
  let error ← fields.orElse "Error" "" Json.text?
  return ⟨id, seq, numSeq, payload, error⟩

/-- Reads a reply. -/
def decode? (bytes : Bytes) : Option Reply := (Json.document? bytes).bind read?

end MarketStream.Bus.Reply
