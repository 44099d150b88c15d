import MarketStream.Fault
import MarketStream.Frame.Kind
import MarketStream.Json.Writer

/-!
# Frames

A frame is one inbound message of a feed: a kind, a payload and a sequence number. The payload is
kept as the JSON text it arrived as and is decoded on demand, so passing a frame on changes no
character of it.

* `Frame` — a frame; `Frame.kind` — what it is about;
* `Frame.parse` — reads a frame; `Frame.encode` — writes it;
* `Frame.value?`, `Frame.members?` — the payload decoded.
-/

namespace MarketStream

/-- One inbound message. -/
structure Frame where
  /-- The name of the kind. -/
  kindName : String
  /-- The JSON text of the payload, without the spaces around it. -/
  data : String
  /-- The sequence number, zero for a message outside any sequence. -/
  seq : Int64
deriving DecidableEq, Inhabited

namespace Frame

/-- What the frame is about. -/
def kind (f : Frame) : Kind := .ofName f.kindName

/-- The text of an absent payload. -/
def noData : String := "null"

/-- A payload as it stands in the text of a frame. -/
def rawText? (input : Json.Input) : Option String := (Glyph.chars? input).map String.ofList

/-- Reads a frame from a delimited text. -/
def read? (input : Json.Input) : Option Frame := do
  let fields ← Json.fields? ["type", "data", "seq"] input
  let kindName ← fields.required "type" Json.text?
  let data ← fields.orElse "data" noData rawText?
  let seq ← fields.orElse "seq" 0 Json.int64?
  return ⟨kindName, data, seq⟩

/-- Reads a frame. -/
def parse (bytes : Bytes) : Except Fault Frame := readOr ((Json.document? bytes).bind read?)

/-- The text of a frame. A sequence number of zero is left out. -/
def write (f : Frame) : List Char :=
  Json.record ([("type", Json.quote f.kindName), ("data", f.data.toList)]
    ++ if f.seq = 0 then [] else [("seq", Text.integer f.seq.toInt)])

/-- The text of a frame. -/
def text (f : Frame) : String := String.ofList f.write

/-- The bytes of a frame. -/
def encode (f : Frame) : Bytes := utf8 f.write

/-- A frame around the text of a value. -/
def ofValue (kindName : String) (payload : Json.Value) : Frame := ⟨kindName, payload.text, 0⟩

/-- The frame with another sequence number. -/
def withSeq (f : Frame) (seq : Int64) : Frame := { f with seq }

/-- The delimited text of the payload, to be decoded. -/
def payload? (f : Frame) : Option Json.Input := Json.document? (textBytes f.data)

/-- The payload as a value. -/
def value? (f : Frame) : Option Json.Value := f.payload?.bind (Json.read? Json.roomy)

/-- The payload as an object. -/
def members? (f : Frame) : Option Json.Members := f.payload?.bind Json.readMembers?

/-- A frame as it is shown to people. -/
def display (f : Frame) : String := "FeedMsg[" ++ f.kindName ++ "]: " ++ f.data

end MarketStream.Frame
