import MarketStream.Aggregator.Status
import MarketStream.Bus.Exchange
import MarketStream.Bus.Responder

/-!
# Requests to an aggregator

Other programs ask an aggregator for something by a request that names a command among its fields,
or that lists the command and then its fields. The answer is a value; what fails is answered by the
wording of the fault.

* `AdminRequest` — a request; `AdminRequest.read?` and `AdminRequest.write` — its text;
* `Aggregator.execute`, `Aggregator.handle` — the answer to a request, and to a text;
* `Aggregator.react` — an aggregator as a subscriber on the exchange.
-/

namespace MarketStream

/-- What can be asked of an aggregator. -/
inductive AdminRequest where
  /-- Subscribe to a stream. -/
  | subscribe (key : StreamKey)
  /-- Drop a subscription. -/
  | unsubscribe (id : String)
  /-- The snapshot of a stream; the key has no delay. -/
  | last (kindName identifier market : String) (source : Option Int64)
  /-- The snapshots of orders. -/
  | orders
  /-- The snapshots of streams, perhaps of one instrument or one market. -/
  | state (identifier market : Option String)
  /-- The status report. -/
  | status
deriving DecidableEq

namespace AdminRequest

/-- A member, if it is given. -/
def given (name : String) (text : Option (List Char)) : List (String × List Char) :=
  (text.map fun t => (name, t)).toList

/-- The member of a source, if there is one. -/
def givenSource (source : Option Int64) : List (String × List Char) :=
  given "source" (source.map fun n => Text.integer n.toInt)

/-- The name of a request's command. -/
def name : AdminRequest → String
  | .subscribe _ => "FeedSubscribe"
  | .unsubscribe _ => "FeedUnsubscribe"
  | .last _ _ _ _ => "FeedLast"
  | .orders => "FeedGetOrders"
  | .state _ _ => "FeedGetState"
  | .status => "FeedStatus"

/-- The members of a request besides its command. -/
def members : AdminRequest → List (String × List Char)
  | .subscribe k =>
    [("type", Json.quote k.kindName), ("id", Json.quote k.identifier),
      ("market", Json.quote k.market)] ++ givenSource k.source
      ++ [("delay", Json.writeBool k.delay)]
  | .unsubscribe id => [("subId", Json.quote id)]
  | .last kindName identifier market source =>
    [("type", Json.quote kindName), ("id", Json.quote identifier), ("market", Json.quote market)]
      ++ givenSource source
  | .state identifier market =>
    given "id" (identifier.map Json.quote) ++ given "market" (market.map Json.quote)
  | .orders | .status => []

/-- The text of a request. -/
def write (r : AdminRequest) : List Char := Json.record (("cmd", Json.quote r.name) :: r.members)

/-- The fields of a command, given a reader of declared fields. -/
def ofFields? (command : String) (fields? : List String → Option Json.Fields) (isBare : Bool) :
    Option AdminRequest :=
  if command = "FeedSubscribe" then do
    let r ← fields? ["type", "id", "market", "source", "delay"]
    let kindName ← r.required "type" Json.text?
    let identifier ← r.orElse "id" "" Json.text?
    let market ← r.orElse "market" "" Json.text?
    let source ← r.orElse "source" none (Json.optional? Json.int64?)
    let delay ← r.orElse "delay" false Json.truth?
    return .subscribe ⟨kindName, identifier, market, source, delay⟩
  else if command = "FeedUnsubscribe" then do
    let r ← fields? ["subId"]
    let id ← r.required "subId" Json.text?
    return .unsubscribe id
  else if command = "FeedLast" then do
    let r ← fields? ["type", "id", "market", "source"]
    let kindName ← r.required "type" Json.text?
    let identifier ← r.orElse "id" "" Json.text?
    let market ← r.orElse "market" "" Json.text?
    let source ← r.orElse "source" none (Json.optional? Json.int64?)
    return .last kindName identifier market source
  else if command = "FeedGetState" then do
    let r ← fields? ["id", "market"]
    let identifier ← r.orElse "id" none (Json.optional? Json.text?)
    let market ← r.orElse "market" none (Json.optional? Json.text?)
    return .state identifier market
  else if command = "FeedGetOrders" then if isBare then some .orders else none
  else if command = "FeedStatus" then if isBare then some .status else none
  else none

/-- Whether every text can be read as a value. -/
def areReadable (texts : List Json.Input) : Bool :=
  texts.all fun t => (Json.readFlat? Json.roomyField t).isSome

/-- Reads a request that names its fields: the command is one of them, given once. -/
def ofParts? (parts : List (String × Json.Input)) : Option AdminRequest :=
  if areReadable (parts.map Prod.snd) ∧ Json.occurrences "cmd" parts = 1 then
    ((parts.lookup "cmd").bind Json.text?).bind fun command =>
      ofFields? command
        (fun names => Json.namedFields? names (parts.filter fun part => part.1 != "cmd")) true
  else none

/-- Reads a request that lists its command and then its fields. -/
def ofTexts? : List Json.Input → Option AdminRequest
  | [] => none
  | first :: rest =>
    if areReadable rest then
      (Json.text? first).bind fun command =>
        ofFields? command (fun names => Json.listedFields? names rest) rest.isEmpty
    else none

/-- Reads a request from a delimited text. -/
def read? (input : Json.Input) : Option AdminRequest :=
  match Json.members? input with
  | some parts => ofParts? parts
  | none => (Json.items? input).bind ofTexts?

/-- Reads a request. -/
def decode? (bytes : Bytes) : Option AdminRequest := (Json.document? bytes).bind read?

end AdminRequest

namespace Aggregator

/-- The text of the answer to a subscription. -/
def Welcome.write (w : Welcome) : List Char :=
  Json.record ([("subId", Json.quote w.id)]
    ++ (w.last.map fun s => ("last", (Json.Value.object s).write)).toList)

/-- The value of the answer to a subscription. -/
def Welcome.value (w : Welcome) : Json.Value :=
  .ofList ([("subId", .string w.id)] ++ (w.last.map fun s => ("last", Json.Value.object s)).toList)

/-- A snapshot with the kind of its stream, as a text. -/
def writeEntry (e : String × Snapshot) : List Char :=
  Json.record [("type", Json.quote e.1), ("data", (Json.Value.object e.2).write)]

/-- A snapshot with the kind of its stream, as a value. -/
def entryValue (e : String × Snapshot) : Json.Value :=
  .ofList [("type", .string e.1), ("data", .object e.2)]

/-- An empty filter admits all. -/
def nonEmpty (filter : Option String) : Option String := filter.filter fun s => s != ""

/-- Does what a request asks for. -/
def execute (a : Aggregator) : AdminRequest → Aggregator × Except Fault Json.Value
  | .subscribe key =>
    match a.subscribe key with
    | (a, result) => (a, result.map Welcome.value)
  | .unsubscribe id =>
    match a.unsubscribe id with
    | (a, result) => (a, result.map fun () => .ofList [("subId", .string id)])
  | .last kindName identifier market source =>
    (a, (a.last ⟨kindName, identifier, market, source, false⟩).map .object)
  | .orders => (a, .ok (.array (a.cache.orderList.map .object)))
  | .state identifier market =>
    (a, .ok (.array ((a.cache.snapshots (nonEmpty identifier) (nonEmpty market)).map entryValue)))
  | .status => (a, .ok a.status)

/-- Answers a request. -/
def handle (a : Aggregator) (data : Bytes) : Aggregator × Except Fault Bytes :=
  match AdminRequest.decode? data with
  | none => (a, .error .unreadable)
  | some request =>
    match a.execute request with
    | (a, result) => (a, result.map fun v => utf8 v.write)

/-- Answers a request in an envelope: the topic the answer goes to, and its segments. -/
def respond (a : Aggregator) (data : Bytes) :
    Aggregator × Except Fault (String × List Bus.Reply) :=
  match Bus.Request.decode? data with
  | none => (a, .error .unreadable)
  | some request =>
    match a.handle request.payload with
    | (a, .ok payload) =>
      (a, .ok (request.replyTo, Bus.split request.id payload Bus.defaultSegmentSize))
    | (a, .error e) => (a, .ok (request.replyTo, [.failure request.id e.message]))

/-- What an aggregator that subscribes to a topic does with a message. -/
def react (a : Aggregator) (message : Bus.Message) : Aggregator × Bus.Reaction :=
  match a.respond message.2 with
  | (a, .ok (topic, replies)) => (a, .ok (replies.map fun reply => (topic, reply.encode)))
  | (a, .error e) => (a, .error e)

end MarketStream.Aggregator
