import MarketStream.Bus.Segments

/-!
# Answering requests

A responder turns a service, a function from payloads to payloads, into answers on the bus. What
the service returns goes back in segments; a failure goes back as the text of its causes, in one
segment.

* `Service` — what answers requests;
* `Responder` — a service with the size of its segments; `Responder.respond` — the segments of an
  answer, with the topic they go to.
-/

namespace MarketStream.Bus

/-- Answers a payload sent to a topic, or fails with causes, the outermost context first. -/
abbrev Service := (topic : String) → Bytes → Except (List String) Bytes

/-- A service on the bus. -/
structure Responder where
  /-- How many bytes a segment of an answer holds. -/
  segmentSize : Nat
  /-- What answers. -/
  service : Service

namespace Responder

/-- The segments that answer a request sent to a topic. -/
def answer (r : Responder) (topic : String) (request : Request) : List Reply :=
  match r.service topic request.payload with
  | .ok payload => split request.id payload r.segmentSize
  | .error causes => [.failure request.id (Fault.chain causes)]

/-- The answer to an envelope: the topic it goes to and its segments. -/
def respond (r : Responder) (topic : String) (data : Bytes) :
    Except Fault (String × List Reply) :=
  match Request.decode? data with
  | none => .error .unreadable
  | some request => .ok (request.replyTo, r.answer topic request)

end MarketStream.Bus.Responder
