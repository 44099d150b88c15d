import Mathlib.Logic.Relation
import MarketStream.Bus.Station
import MarketStream.Proofs.Bus.Requester

/-!
# Requests in traffic

A requester and a responder on a bus that promises nothing: what was published may reach a
subscriber late, out of order, many times or never, and time passes in between. Subscribers do what
those of a station do. A request that waits in vain is ended by its timer, at its deadline or a
bounded time later.

* `Call`, `Traffic` — the requests made, and all that was published, arrived and resolved so far;
* `Traffic.ask`, `Traffic.serve`, `Traffic.deliver`, `Traffic.lapse`, `Traffic.pass` — what happens;
* `Traffic.Step`, `Traffic.Reachable` — in any order;
* `Traffic.exists_later` — time can always go on.
-/

namespace MarketStream.Bus

/-- A request that was made. -/
structure Call where
  /-- Its number. -/
  id : Int64
  /-- The topic it was sent to. -/
  topic : String
  /-- What it asks. -/
  payload : Bytes
  /-- The instant up to which it waits. -/
  deadline : Nat

/-- A requester in traffic. -/
structure Traffic where
  /-- The requester and how requests ended. -/
  ledger : Station.Ledger
  /-- The present instant in milliseconds. -/
  now : Nat
  /-- The requests made so far, oldest first. -/
  calls : List Call
  /-- The messages published so far. -/
  sent : List Message
  /-- What reached the inbox so far, each with the instant at which it did. -/
  arrivals : List (Nat × Bytes)

namespace Traffic

/-- The requester. -/
abbrev requester (t : Traffic) : Requester := t.ledger.requester

/-- How requests ended so far, oldest first. -/
abbrev resolved (t : Traffic) : List Resolution := t.ledger.resolved

/-- A requester before its first request. -/
def start (inbox : String) (timeout segmentSize now : Nat) : Traffic :=
  ⟨⟨.idle inbox timeout segmentSize, []⟩, now, [], [], []⟩

/-- A request is made. -/
def ask (t : Traffic) (id : Int64) (topic : String) (payload : Bytes) : Traffic :=
  { t with
    ledger := { t.ledger with requester := t.requester.issue t.now id }
    calls := t.calls ++ [⟨id, topic, payload, t.now + t.requester.timeout⟩]
    sent := t.sent ++ [(topic, (t.requester.envelope id payload).encode)] }

/-- What a subscriber publishes in turn. -/
def published : Reaction → List Message
  | .ok messages => messages
  | .error _ => []

/-- A message reaches a responder. -/
def serve (t : Traffic) (responder : Responder) (message : Message) : Traffic :=
  { t with sent := t.sent ++ published (Station.react (.service responder) message t.ledger).2 }

/-- Bytes reach the inbox. -/
def deliver (t : Traffic) (data : Bytes) : Traffic :=
  { t with
    ledger := (Station.react .inbox (t.requester.inbox, data) t.ledger).1
    arrivals := t.arrivals ++ [(t.now, data)] }

/-- The timer of a request ends it. -/
def lapse (t : Traffic) (id : Int64) : Traffic :=
  { t with ledger := t.ledger.settle (t.requester.lapse id) }

/-- Time passes. -/
def pass (t : Traffic) (ms : Nat) : Traffic := { t with now := t.now + ms }

/-- What can happen next, where every request has a number of its own and no timer is more than
`lag` late. -/
inductive Step (responder : Responder) (lag : Nat) (t : Traffic) : Traffic → Prop where
  /-- A request is made. -/
  | ask (id : Int64) (topic : String) (payload : Bytes) (new : id ∉ t.calls.map Call.id) :
    Step responder lag t (t.ask id topic payload)
  /-- A message reaches the responder, whether or not it did before. -/
  | serve (message : Message) (sent : message ∈ t.sent) :
    Step responder lag t (t.serve responder message)
  /-- A message reaches the inbox, whether or not it did before. -/
  | deliver (data : Bytes) (sent : (t.requester.inbox, data) ∈ t.sent) :
    Step responder lag t (t.deliver data)
  /-- The timer of a request goes off. -/
  | lapse (id : Int64) (p : Pending) (waits : t.requester.find? id = some p)
    (due : p.deadline ≤ t.now) : Step responder lag t (t.lapse id)
  /-- Time passes, but not beyond what the timers allow. -/
  | pass (ms : Nat)
    (prompt : ∀ id p, t.requester.find? id = some p → t.now + ms ≤ p.deadline + lag) :
    Step responder lag t (t.pass ms)

/-- What a requester in traffic can come to. -/
inductive Reachable (responder : Responder) (lag : Nat) : Traffic → Prop where
  /-- Before the first request. -/
  | start (inbox : String) (timeout segmentSize now : Nat) :
    Reachable responder lag (start inbox timeout segmentSize now)
  /-- One thing more happens. -/
  | step {t t' : Traffic} (reached : Reachable responder lag t) (next : Step responder lag t t') :
    Reachable responder lag t'

/-- What happens leads from one state to another. -/
def Leads (responder : Responder) (lag : Nat) : Traffic → Traffic → Prop :=
  Relation.ReflTransGen (Step responder lag)

theorem Reachable.leads {responder : Responder} {lag : Nat} {t t' : Traffic}
    (reached : Reachable responder lag t) (leads : Leads responder lag t t') :
    Reachable responder lag t' := by
  induction leads with
  | refl => exact reached
  | tail _ next ih => exact ih.step next

/-- No request is forgotten. -/
theorem Step.calls_subset {responder : Responder} {lag : Nat} {t t' : Traffic}
    (next : Step responder lag t t') : t.calls ⊆ t'.calls := by
  cases next with
  | ask => exact List.subset_append_left _ _
  | serve => exact List.Subset.refl _
  | deliver => exact List.Subset.refl _
  | lapse => exact List.Subset.refl _
  | pass => exact List.Subset.refl _

/-- What happens without a request, a message or an arrival. -/
structure Idle (t t' : Traffic) : Prop where
  /-- No request is made. -/
  calls : t'.calls = t.calls
  /-- Nothing is published. -/
  sent : t'.sent = t.sent
  /-- Nothing arrives. -/
  arrivals : t'.arrivals = t.arrivals

/-- Time never stands still: if nothing else happens, the timers that are due go off one after
another, and any instant comes. -/
theorem exists_later {responder : Responder} {lag : Nat} (t : Traffic) (instant : Nat) :
    ∃ t', Leads responder lag t t' ∧ Idle t t' ∧ instant ≤ t'.now := by
  -- Either time passes or a timer goes off, which leaves fewer of them.
  generalize ahead : instant - t.now = wait
  induction wait generalizing t with
  | zero => exact ⟨t, .refl, ⟨rfl, rfl, rfl⟩, by omega⟩
  | succ wait passed =>
    generalize size : t.requester.pending.length = n
    induction n using Nat.strongRecOn generalizing t with
    | ind n fewer =>
      by_cases prompt : ∀ id p, t.requester.find? id = some p → t.now + 1 ≤ p.deadline + lag
      · have now : (t.pass 1).now = t.now + 1 := rfl
        obtain ⟨t', leads, ⟨calls, sent, arrivals⟩, le⟩ := passed (t.pass 1) (by omega)
        exact ⟨t', .head (.pass 1 prompt) leads, ⟨calls, sent, arrivals⟩, le⟩
      · obtain ⟨id, p, waits, due⟩ : ∃ id p, t.requester.find? id = some p ∧
            ¬ t.now + 1 ≤ p.deadline + lag := by simpa using prompt
        have shorter : (t.lapse id).requester.pending.length < n := by
          rw [← size]
          exact List.length_filter_lt_length_iff_exists.mpr ⟨_, mem_of_lookup waits, by simp⟩
        obtain ⟨t', leads, ⟨calls, sent, arrivals⟩, le⟩ := fewer _ shorter (t.lapse id) ahead rfl
        exact ⟨t', .head (.lapse id p waits (by omega)) leads, ⟨calls, sent, arrivals⟩, le⟩

end MarketStream.Bus.Traffic
