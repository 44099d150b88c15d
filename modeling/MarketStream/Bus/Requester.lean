import MarketStream.Bus.Segments

/-!
# Waiting for replies

A requester remembers the requests that have no complete reply yet, each under its number and with
the instant up to which it waits. A request leaves the table exactly when it is resolved: by its
reply, by the failure of the replying side, when its message is refused, when its time is up, or
when the bus is closed.

* `Pending` — a request without complete reply; `Requester` — the table of them;
* `Requester.issue`, `Requester.refuse`, `Requester.receive`, `Requester.expire`,
  `Requester.close` — what can happen, each giving the requests it resolves.
-/

namespace MarketStream.Bus

/-- A request without complete reply. -/
structure Pending where
  /-- What has arrived of the reply. -/
  reassembly : Reassembly
  /-- The instant at which waiting ends. -/
  deadline : Nat
deriving DecidableEq

/-- How a request ended: its number with its reply or the cause of its failure. -/
abbrev Resolution := Int64 × Except Fault Reply

/-- The requests that wait for replies on one topic. -/
structure Requester where
  /-- The topic on which replies are expected. -/
  inbox : String
  /-- How long a request waits. -/
  timeout : Nat
  /-- How many bytes a segment of this side's own answers holds. -/
  segmentSize : Nat
  /-- The requests without complete reply, each number once. -/
  pending : List (Int64 × Pending)

namespace Requester

/-- How long a request waits unless said otherwise. -/
def defaultTimeout : Nat := 30000

/-- A requester without requests. -/
def idle (inbox : String) (timeout segmentSize : Nat) : Requester :=
  ⟨inbox, timeout, segmentSize, []⟩

/-- The request with a number, if it still waits. -/
def find? (r : Requester) (id : Int64) : Option Pending := r.pending.lookup id

/-- The table without a request. -/
def remove (r : Requester) (id : Int64) : Requester :=
  { r with pending := r.pending.filter fun p => p.1 != id }

/-- Enters a request made at an instant. -/
def issue (r : Requester) (now : Nat) (id : Int64) : Requester :=
  let r := r.remove id
  { r with pending := r.pending ++ [(id, ⟨.empty, now + r.timeout⟩)] }

/-- The envelope of a request. -/
def envelope (r : Requester) (id : Int64) (payload : Bytes) : Request := ⟨id, r.inbox, payload⟩

/-- The message of a request was refused. -/
def refuse (r : Requester) (id : Int64) (fault : Fault) : Requester × List Resolution :=
  (r.remove id, [(id, .error fault)])

/-- What a complete reply means for the one who waits for it. -/
def outcome (reply : Reply) : Except Fault Reply :=
  if reply.isError then .error (.remote reply.error) else .ok reply

/-- A segment arrived. One for a request that does not wait changes nothing. -/
def receive (r : Requester) (reply : Reply) : Requester × List Resolution :=
  match r.find? reply.id with
  | none => (r, [])
  | some p =>
    match p.reassembly.feed reply with
    | (_, true, whole) => (r.remove reply.id, whole.toList.map fun m => (reply.id, outcome m))
    | (reassembly, false, _) =>
      let update := fun (e : Int64 × Pending) =>
        if e.1 = reply.id then (e.1, { e.2 with reassembly }) else e
      ({ r with pending := r.pending.map update }, [])

/-- An envelope arrived on the inbox. -/
def handle (r : Requester) (data : Bytes) : Except Fault (Requester × List Resolution) :=
  (readOr (Reply.decode? data)).map r.receive

/-- Ends the requests whose time is up at an instant. -/
def expire (r : Requester) (now : Nat) : Requester × List Resolution :=
  let isDue := fun (e : Int64 × Pending) => decide (e.2.deadline ≤ now)
  ({ r with pending := r.pending.filter fun e => !isDue e },
    (r.pending.filter isDue).map fun e => (e.1, .error (.timeout e.1 r.timeout)))

/-- Gives up every request. -/
def close (r : Requester) : Requester × List Resolution :=
  ({ r with pending := [] }, r.pending.map fun e => (e.1, .error (.noResponse e.1)))

end MarketStream.Bus.Requester
