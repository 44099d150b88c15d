import MarketStream.Command
import MarketStream.Text.Blank
import MarketStream.Frame.Kind

/-!
# Stream keys

A stream key names one stream of a feed. It is what a client subscribes to and what cached
snapshots are filed under. News streams are told apart by their source; every other stream by
instrument and market, which are kept as texts so that keys from requests and keys from payloads
agree.

* `StreamKey` — a key; `StreamKey.ofPayload` — the key of the snapshot a payload updates;
* `StreamKey.normalized`, `StreamKey.stateKey` — the key without the fields its kind does not use;
* `StreamKey.command` — the command that subscribes to the stream.
-/

namespace MarketStream

/-- The name of one stream. -/
structure StreamKey where
  /-- The name of the kind of its frames. -/
  kindName : String
  /-- The instrument. -/
  identifier : String := ""
  /-- The market. -/
  market : String := ""
  /-- The source of news. -/
  source : Option Int64 := none
  /-- Delayed news. -/
  delay : Bool := false
deriving DecidableEq

namespace StreamKey

/-- The kind of the stream's frames. -/
def kind (k : StreamKey) : Frame.Kind := .ofName k.kindName

/-- The stream of one source of news. -/
def news (source : Int64) (delay : Bool) : StreamKey :=
  ⟨Frame.Kind.news.name, "", "", some source, delay⟩

/-- How a payload's field stands in a key: a text as it is, an absent field as nothing, any other
value as its JSON text. -/
def fieldText : Option Json.Value → String
  | none | some .null => ""
  | some (.string s) => s
  | some other => other.text

/-- The signed 64-bit number that a payload's field holds. -/
def fieldNumber? : Option Json.Value → Option Int64
  | some (.integer n) => if n.val ≤ Int64.maxValue.toInt then some (.ofInt n.val) else none
  | _ => none

/-- The key of the snapshot that a payload of the given kind updates. -/
def ofPayload (kindName : String) (payload : Json.Members) : StreamKey :=
  if kindName = Frame.Kind.news.name then
    ⟨kindName, "", "", fieldNumber? (payload.find? "source_id"), false⟩
  else
    ⟨kindName, fieldText (payload.find? "i"), fieldText (payload.find? "m"), none, false⟩

/-- The key without the fields that its kind does not use. -/
def normalized (k : StreamKey) : StreamKey :=
  if k.kindName = Frame.Kind.news.name then ⟨k.kindName, "", "", k.source, k.delay⟩
  else ⟨k.kindName, k.identifier, k.market, none, false⟩

/-- The key that snapshots are filed under: a delay does not change what they hold. -/
def stateKey (k : StreamKey) : StreamKey := { k.normalized with delay := false }

/-- The market number of an instrument stream, which may be padded with blanks. -/
def marketNumber? (k : StreamKey) : Option Int64 := Text.int64? (Text.trim k.market.toList)

/-- The arguments of the stream's commands. -/
def args (k : StreamKey) : Except Fault Json.Value :=
  match k.kind with
  | .price | .depth | .trade | .tradingStatus =>
    match k.marketNumber? with
    | some market =>
      .ok (.ofList [("t", .string k.kindName), ("i", .string k.identifier), ("m", .ofInt64 market)])
    | none =>
      .error (.unbuildable
        ("market '" ++ k.market ++ "' of " ++ k.kindName ++ " subscription is not numeric"))
  | .indicator =>
    .ok (.ofList [("t", .string k.kindName), ("i", .string k.identifier), ("m", .string k.market)])
  | .news =>
    match k.source with
    | some source =>
      .ok (.ofList [("t", .string k.kindName), ("s", .ofInt64 source), ("delay", .bool k.delay)])
    | none => .error (.missingField "source")
  | _ => .error (.unbuildable ("unknown subscription type '" ++ k.kindName ++ "'"))

/-- The command that does `action` with the stream. -/
def command (k : StreamKey) (action : String) : Except Fault Command :=
  k.args.map fun args => ⟨action, args⟩

/-- A key as it is shown to people and by which listings are sorted. -/
def display (k : StreamKey) : String :=
  match k.source with
  | some source => k.kindName ++ ":" ++ String.ofList (Text.integer source.toInt)
  | none => k.kindName ++ ":" ++ k.identifier ++ ":" ++ k.market

/-- The text of a key. -/
def write (k : StreamKey) : List Char :=
  Json.record ([("type", Json.quote k.kindName), ("id", Json.quote k.identifier),
      ("market", Json.quote k.market)]
    ++ (k.source.map fun n => ("source", Text.integer n.toInt)).toList
    ++ [("delay", Json.writeBool k.delay)])

/-- The text of a key. -/
def text (k : StreamKey) : String := String.ofList k.write

/-- Reads a key from a delimited text. -/
def read? (input : Json.Input) : Option StreamKey := do
  let fields ← Json.fields? ["type", "id", "market", "source", "delay"] input
  let kindName ← fields.required "type" Json.text?
  let identifier ← fields.orElse "id" "" Json.text?
  let market ← fields.orElse "market" "" Json.text?
  let source ← fields.orElse "source" none (Json.optional? Json.int64?)
  let delay ← fields.orElse "delay" false Json.truth?
  return ⟨kindName, identifier, market, source, delay⟩

/-- Reads a key. -/
def decode? (bytes : Bytes) : Option StreamKey := (Json.document? bytes).bind read?

end MarketStream.StreamKey
