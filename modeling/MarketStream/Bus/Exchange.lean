import MarketStream.Fault

/-!
# The exchange

A bus on which publishing hands a message to the subscribers of its topic at once, in the order in
which they subscribed. What a subscriber publishes in turn is handed on before the next subscriber
is reached. A subscriber's failure is noted and stops nothing.

* `Exchange` — the bus, over any kind of subscriber;
* `Reaction` — what a subscriber does with a message;
* `Exchange.publish` — hands a message on, threading the state that subscribers share.
-/

namespace MarketStream.Bus

/-- A message on its way: its topic and its bytes. -/
abbrev Message := String × Bytes

/-- What a subscriber does with a message: it fails, or publishes messages in turn. -/
abbrev Reaction := Except Fault (List Message)

/-- The bus. -/
structure Exchange (ε : Type) where
  /-- Whether the bus refuses everything. -/
  isClosed : Bool
  /-- How many more messages the bus takes, if there is a limit. -/
  budget : Option Nat
  /-- The topics with their subscribers, in the order of subscription. -/
  subscribers : List (String × ε)
  /-- The messages taken so far, oldest first. -/
  log : List Message
  /-- The failures of subscribers so far, oldest first. -/
  failures : List Fault

namespace Exchange

variable {ε σ : Type}

/-- An open bus without subscribers and without limit. -/
def empty : Exchange ε := ⟨false, none, [], [], []⟩

/-- Adds a subscriber to a topic. -/
def subscribe (x : Exchange ε) (topic : String) (subscriber : ε) : Except Fault (Exchange ε) :=
  if x.isClosed then .error .closed
  else .ok { x with subscribers := x.subscribers ++ [(topic, subscriber)] }

/-- Notes a message, unless the bus refuses it. -/
def accept (x : Exchange ε) (message : Message) : Except Fault (Exchange ε) :=
  if x.isClosed then .error .closed
  else
    match x.budget with
    | some 0 => .error (.publish message.1 "scripted")
    | some (n + 1) => .ok { x with budget := some n, log := x.log ++ [message] }
    | none => .ok { x with log := x.log ++ [message] }

/-- Notes messages one after another, up to the first that is refused. -/
def acceptAll (x : Exchange ε) : List Message → Exchange ε × Except Fault Unit
  | [] => (x, .ok ())
  | message :: rest =>
    match x.accept message with
    | .ok x => x.acceptAll rest
    | .error e => (x, .error e)

/-- Notes the failure of a subscriber. -/
def fail (x : Exchange ε) (fault : Fault) : Exchange ε :=
  { x with failures := x.failures ++ [fault] }

/-- The subscribers to a topic. -/
def audience (x : Exchange ε) (topic : String) : List ε :=
  (x.subscribers.filter fun s => s.1 == topic).map Prod.snd

/-- Publishes messages one after another, up to the first that is refused. -/
def publishAll (publish : σ × Exchange ε → Message → (σ × Exchange ε) × Except Fault Unit) :
    σ × Exchange ε → List Message → (σ × Exchange ε) × Except Fault Unit
  | w, [] => (w, .ok ())
  | w, message :: rest =>
    match publish w message with
    | (w, .ok ()) => publishAll publish w rest
    | (w, .error e) => (w, .error e)

/-- Publishes a message. `react` says what a subscriber does with it and with the state that
subscribers share; `hops` bounds how many messages one message may cause in a chain. -/
def publish (react : ε → Message → σ → σ × Reaction) :
    (hops : Nat) → σ × Exchange ε → Message → (σ × Exchange ε) × Except Fault Unit
  | 0, w, _ => (w, .ok ())
  | hops + 1, (s, x), message =>
    match x.accept message with
    | .error e => ((s, x), .error e)
    | .ok x =>
      let hand := fun (w : σ × Exchange ε) (subscriber : ε) =>
        match react subscriber message w.1 with
        | (s, .error e) => (s, w.2.fail e)
        | (s, .ok messages) =>
          match publishAll (publish react hops) (s, w.2) messages with
          | (w, .ok ()) => w
          | (w, .error e) => (w.1, w.2.fail e)
      ((x.audience message.1).foldl hand (s, x), .ok ())

/-- How long a chain of messages can get: a request, its reply, and what a reply that goes astray
to another service causes. -/
def maxHops : Nat := 8

/-- Refuses everything from now on. -/
def close (x : Exchange ε) : Exchange ε := { x with isClosed := true }

end MarketStream.Bus.Exchange
