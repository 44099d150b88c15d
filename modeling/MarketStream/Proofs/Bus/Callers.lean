import Mathlib.Logic.Relation
import MarketStream.Proofs.Bus.Requester

/-!
# Callers of a requester

Many callers share one requester. Each has its request published, waits for the reply under a timer
of its own and goes away with what came of it. What the table hands over to a caller goes into its
letter box, which takes one letter, and stays there until the caller looks. In between anything may
happen: bytes of any kind reach the inbox, publishing takes its time, the bus is closed.

* `Caller`, `Clientele` — a caller; a requester with all its callers so far;
* `Clientele.call`, `send`, `refuse`, `deliver`, `wake`, `tire`, `leave`, `close`, `pass` — what
  happens;
* `Clientele.Step`, `Clientele.Reachable` — in any order.
-/

namespace MarketStream.Bus

/-- How far a caller is with its request. -/
inductive Caller.Stage where
  /-- The request is being published. -/
  | sending
  /-- The reply is waited for, up to an instant. -/
  | waiting (deadline : Nat)
  /-- The instant has come, and the request is about to be taken out of the table. -/
  | leaving (deadline : Nat)
  /-- The caller has gone, with what came of the request. -/
  | gone (result : Except Fault Reply)

/-- Who made a request. -/
structure Caller where
  /-- The number of the request. -/
  id : Int64
  /-- How far the caller is. -/
  stage : Caller.Stage
  /-- What the table handed over, if anything: the outcome of a reply, or that there will be none. -/
  letter : Option (Except Fault Reply)

namespace Caller

/-- What the caller went away with. -/
def Stage.result? : Stage → Option (Except Fault Reply)
  | .gone result => some result
  | _ => none

/-- The instant up to which the caller waits. -/
def Stage.deadline? : Stage → Option Nat
  | .waiting deadline | .leaving deadline => some deadline
  | _ => none

/-- Nothing has come of the request yet: there is no letter, and the caller has not gone. -/
def isOpen (c : Caller) : Bool := c.letter.isNone && c.stage.result?.isNone

/-- The caller is told what concerns it. A second letter is lost. -/
def hear (c : Caller) (news : List Resolution) : Caller :=
  { c with letter := c.letter.or (news.lookup c.id) }

/-- The caller goes away with what concerns it. -/
def depart (c : Caller) (news : List Resolution) : Caller :=
  match news.lookup c.id with
  | some result => { c with stage := .gone result }
  | none => c

end Caller

/-- A requester and all who ever called it. -/
structure Clientele where
  /-- The requester. -/
  requester : Requester
  /-- The callers so far, oldest first. -/
  callers : List Caller
  /-- The present instant in milliseconds. -/
  now : Nat

namespace Clientele

/-- A requester that nobody has called. -/
def start (inbox : String) (timeout segmentSize now : Nat) : Clientele :=
  ⟨.idle inbox timeout segmentSize, [], now⟩

variable (s : Clientele)

/-- The numbers of the requests that nothing has come of. -/
def unresolved : List Int64 := (s.callers.filter Caller.isOpen).map Caller.id

/-- The caller of a number gets to another stage. -/
def moveTo (id : Int64) (stage : Caller.Stage) : Clientele :=
  { s with callers := s.callers.map fun c => if c.id = id then { c with stage } else c }

/-- The table changes, and callers are told what it resolved. -/
def tell (outcome : Requester × List Resolution) : Clientele :=
  { s with requester := outcome.1, callers := s.callers.map fun c => c.hear outcome.2 }

/-- A caller changes the table, and goes away with what it resolved. -/
def quit (outcome : Requester × List Resolution) : Clientele :=
  { s with requester := outcome.1, callers := s.callers.map fun c => c.depart outcome.2 }

/-! ## What happens -/

/-- A request is made. -/
def call (id : Int64) : Clientele :=
  { s with
    requester := s.requester.issue s.now id
    callers := s.callers ++ [⟨id, .sending, none⟩] }

/-- A request has been published. From now on the reply is waited for. -/
def send (id : Int64) : Clientele := s.moveTo id (.waiting (s.now + s.requester.timeout))

/-- The transport refuses a request. -/
def refuse (id : Int64) (fault : Fault) : Clientele := s.quit (s.requester.refuse id fault)

/-- Bytes reach the inbox. Those that are no reply are dropped. -/
def deliver (data : Bytes) : Clientele :=
  match s.requester.handle data with
  | .ok outcome => s.tell outcome
  | .error _ => s

/-- A caller finds its letter, and goes. -/
def wake (id : Int64) (result : Except Fault Reply) : Clientele := s.moveTo id (.gone result)

/-- A caller finds no letter, and that its time is up. -/
def tire (id : Int64) (deadline : Nat) : Clientele := s.moveTo id (.leaving deadline)

/-- A caller whose time is up takes its request out of the table, and goes. -/
def leave (id : Int64) : Clientele := s.quit (s.requester.lapse id)

/-- The bus is closed. -/
def close : Clientele := s.tell s.requester.close

/-- Time passes. -/
def pass (ms : Nat) : Clientele := { s with now := s.now + ms }

/-- What can happen next, where every request has a number of its own and no timer of an unresolved
request is more than `lag` late. -/
inductive Step (lag : Nat) (s : Clientele) : Clientele → Prop where
  /-- A request is made. -/
  | call (id : Int64) (new : id ∉ s.callers.map Caller.id) : Step lag s (s.call id)
  /-- A request has been published. -/
  | send (c : Caller) (mem : c ∈ s.callers) (stage : c.stage = .sending) : Step lag s (s.send c.id)
  /-- A request is refused. -/
  | refuse (c : Caller) (mem : c ∈ s.callers) (stage : c.stage = .sending) (fault : Fault) :
    Step lag s (s.refuse c.id fault)
  /-- Any bytes reach the inbox. -/
  | deliver (data : Bytes) : Step lag s (s.deliver data)
  /-- A waiting caller finds a letter, even if its time is up. -/
  | wake (c : Caller) (mem : c ∈ s.callers) (deadline : Nat) (stage : c.stage = .waiting deadline)
    (result : Except Fault Reply) (letter : c.letter = some result) : Step lag s (s.wake c.id result)
  /-- A waiting caller finds its time up, and no letter. -/
  | tire (c : Caller) (mem : c ∈ s.callers) (deadline : Nat) (stage : c.stage = .waiting deadline)
    (letter : c.letter = none) (due : deadline ≤ s.now) : Step lag s (s.tire c.id deadline)
  /-- A caller whose time is up goes, whatever has come in the meantime. -/
  | leave (c : Caller) (mem : c ∈ s.callers) (deadline : Nat) (stage : c.stage = .leaving deadline) :
    Step lag s (s.leave c.id)
  /-- The bus is closed, perhaps not for the first time. -/
  | close : Step lag s s.close
  /-- Time passes, but not beyond what the timers allow. -/
  | pass (ms : Nat)
    (prompt : ∀ c ∈ s.callers, c.isOpen = true → ∀ deadline ∈ c.stage.deadline?,
      s.now + ms ≤ deadline + lag) : Step lag s (s.pass ms)

/-- What a requester and its callers can come to. -/
inductive Reachable (lag : Nat) : Clientele → Prop where
  /-- Before the first call. -/
  | start (inbox : String) (timeout segmentSize now : Nat) :
    Reachable lag (start inbox timeout segmentSize now)
  /-- One thing more happens. -/
  | step {s s' : Clientele} (reached : Reachable lag s) (next : Step lag s s') : Reachable lag s'

/-- What happens leads from one state to another. -/
def Leads (lag : Nat) : Clientele → Clientele → Prop := Relation.ReflTransGen (Step lag)

end MarketStream.Bus.Clientele
