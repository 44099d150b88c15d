import MarketStream.Bus.Exchange
import MarketStream.Bus.Requester
import MarketStream.Bus.Responder

/-!
# A station on an exchange

One requester on an exchange, together with the responders that serve topics of the same exchange,
under a clock that moves only when told to.

* `Station` — the requester, its exchange and its clock;
* `Station.request`, `Station.serve`, `Station.advance`, `Station.close` — what can be done there.
-/

namespace MarketStream.Bus

/-- A subscriber at a station. -/
inductive Station.Seat where
  /-- The requester's inbox. -/
  | inbox
  /-- A responder. -/
  | service (responder : Responder)

/-- What the subscribers of a station share: the requester, and how requests ended so far. -/
structure Station.Ledger where
  /-- The requester. -/
  requester : Requester
  /-- How requests ended, oldest first. -/
  resolved : List Resolution

/-- One requester on an exchange. -/
structure Station where
  /-- The exchange. -/
  exchange : Exchange Station.Seat
  /-- The requester and how its requests ended. -/
  ledger : Station.Ledger
  /-- The present instant in milliseconds. -/
  now : Nat

namespace Station

/-- Records how requests ended. -/
def Ledger.settle (l : Ledger) (result : Requester × List Resolution) : Ledger :=
  ⟨result.1, l.resolved ++ result.2⟩

/-- What a subscriber does with a message. -/
def react (seat : Seat) (message : Message) (l : Ledger) : Ledger × Reaction :=
  match seat with
  | .inbox =>
    match l.requester.handle message.2 with
    | .ok result => (l.settle result, .ok [])
    | .error e => (l, .error e)
  | .service responder =>
    match responder.respond message.1 message.2 with
    | .ok (topic, replies) => (l, .ok (replies.map fun reply => (topic, reply.encode)))
    | .error e => (l, .error e)

/-- A station whose requester listens on its inbox. -/
def establish (exchange : Exchange Seat) (requester : Requester) : Except Fault Station :=
  (exchange.subscribe requester.inbox .inbox).map fun exchange => ⟨exchange, ⟨requester, []⟩, 0⟩

/-- Publishes a message. -/
def publish (s : Station) (message : Message) : Station × Except Fault Unit :=
  match Exchange.publish react Exchange.maxHops (s.ledger, s.exchange) message with
  | ((ledger, exchange), result) => ({ s with ledger, exchange }, result)

/-- Ends the requests whose time is up. -/
def expire (s : Station) : Station :=
  { s with ledger := s.ledger.settle (s.ledger.requester.expire s.now) }

/-- Sends a request and begins to wait for its reply. -/
def request (s : Station) (id : Int64) (topic : String) (payload : Bytes) : Station :=
  let issued := { s with
    ledger := { s.ledger with requester := s.ledger.requester.issue s.now id } }
  match issued.publish (topic, (s.ledger.requester.envelope id payload).encode) with
  | (s, .ok ()) => s.expire
  | (s, .error e) => { s with ledger := s.ledger.settle (s.ledger.requester.refuse id e) }

/-- Hands an envelope to the requester without going through the exchange. -/
def handle (s : Station) (data : Bytes) : Station × Except Fault Unit :=
  match s.ledger.requester.handle data with
  | .ok result => ({ s with ledger := s.ledger.settle result }, .ok ())
  | .error e => (s, .error e)

/-- Serves a topic, with segments of the requester's size. -/
def serve (s : Station) (topic : String) (service : Service) : Except Fault Station :=
  (s.exchange.subscribe topic (.service ⟨s.ledger.requester.segmentSize, service⟩)).map
    fun exchange => { s with exchange }

/-- Lets time pass. -/
def advance (s : Station) (ms : Nat) : Station := { s with now := s.now + ms }.expire

/-- Limits how many more messages the exchange takes. -/
def limit (s : Station) (budget : Option Nat) : Station :=
  { s with exchange := { s.exchange with budget } }

/-- Gives up every request and closes the exchange. -/
def close (s : Station) : Station :=
  { s with
    ledger := s.ledger.settle s.ledger.requester.close
    exchange := s.exchange.close }

end MarketStream.Bus.Station
