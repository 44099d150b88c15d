import MarketStream.Command
import MarketStream.Link.Backoff
import MarketStream.Link.Inbound

/-!
# The timeline of a link

A link asks for a session, dials, logs in and then receives frames until something fails; then it
waits and begins anew. What happens when depends only on how the other side behaves, attempt by
attempt, so the whole course of a link can be laid out ahead.

* `Attempt` — how the other side behaves once; `Attempt.Item` — what the peer does on a link;
* `Event` — what happens on a link; `Timeline` — events with their instants;
* `Attempt.play` — the events of one attempt; `timeline` — those of a link.
-/

namespace MarketStream.Link

/-- What the peer does on an open link. -/
inductive Attempt.Item where
  /-- Sends bytes. -/
  | send (bytes : Bytes)
  /-- Stays silent for some milliseconds. -/
  | wait (ms : Nat)
  /-- Ends the stream. -/
  | finish
  /-- The stream breaks. -/
  | breakOff (reason : String)
deriving DecidableEq

/-- How the other side behaves at one attempt. -/
structure Attempt where
  /-- How long it takes to get a session, in milliseconds. -/
  sessionWait : Nat := 0
  /-- Why there is no session. -/
  sessionFault : Option Fault := none
  /-- The key of the session. -/
  key : String := "key"
  /-- How long it takes to dial, in milliseconds. -/
  dialWait : Nat := 0
  /-- Why dialling fails. -/
  dialFault : Option Fault := none
  /-- The first write that fails, counting the login as the first. -/
  failingWrite : Option Nat := none
  /-- What the peer does on the link, after which it stays silent. -/
  items : List Attempt.Item := []

/-- What happens on a link. -/
inductive Event where
  /-- A session is asked for, for the given attempt. -/
  | asked (attempt : Nat)
  /-- An address is dialled. -/
  | dialled (address : String)
  /-- The login is sent; writes fail from the given one on. -/
  | opened (login : Command) (failingWrite : Option Nat)
  /-- A frame arrives. -/
  | received (frame : Frame)
  /-- The attempt ends. -/
  | failed (fault : Fault)
  /-- A wait is over. -/
  | woken
deriving DecidableEq

/-- Events with their instants in milliseconds, in order. -/
abbrev Timeline := List (Nat × Event)

/-- The fault of a write that fails. -/
def writeFault : Fault := .connection "scripted write failure"

/-- Waits: the instant afterwards, and the end of the wait if there is any. -/
def pause (now ms : Nat) : Nat × Timeline :=
  if ms = 0 then (now, []) else (now + ms, [(now + ms, .woken)])

/-- The frames of a read, all at one instant. -/
def arrivals (now : Nat) (frames : List Frame) : Timeline :=
  frames.map fun f => (now, .received f)

/-- How an attempt went on: the instant and cause of its end, if it ends. -/
abbrev Ending := Option (Nat × Fault)

/-- The events on an open link, and how it ends. -/
def playItems (now : Nat) (inbound : Inbound) : List Attempt.Item → Timeline × Ending
  | [] => ([], none)
  | .send bytes :: rest =>
    match inbound.feed bytes with
    | (_, frames, true) => (arrivals now frames, some (now, .badFrame))
    | (inbound, frames, false) =>
      match playItems now inbound rest with
      | (events, ending) => (arrivals now frames ++ events, ending)
  | .wait ms :: rest =>
    match pause now ms with
    | (later, waited) =>
      match playItems later inbound rest with
      | (events, ending) => (waited ++ events, ending)
  | .finish :: _ =>
    match inbound.finish with
    | (frames, bad) => (arrivals now frames, some (now, if bad then .badFrame else .streamClosed))
  | .breakOff reason :: _ => ([], some (now, .connection reason))

/-- Whether a write fails, given the first one that does. -/
def failsAt (failingWrite : Option Nat) (n : Nat) : Bool := failingWrite.any fun k => decide (k ≤ n)

namespace Attempt

/-- The events from dialling on. -/
def playDial (a : Attempt) (now : Nat) (replay : Option LoginReplay) (address : String) :
    Timeline × Ending :=
  match pause now a.dialWait with
  | (later, waited) =>
    let begun := (now, Event.dialled address) :: waited
    match a.dialFault with
    | some fault => (begun, some (later, fault))
    | none =>
      if failsAt a.failingWrite 1 then (begun, some (later, writeFault))
      else
        match playItems later .empty a.items with
        | (events, ending) =>
          (begun ++ (later, .opened (.login a.key replay) a.failingWrite) :: events, ending)

/-- The events of an attempt that begins at an instant. -/
def play (a : Attempt) (now number : Nat) (replay : Option LoginReplay) (address : String) :
    Timeline × Ending :=
  match pause now a.sessionWait with
  | (later, waited) =>
    let begun := (now, Event.asked number) :: waited
    match a.sessionFault with
    | some fault => (begun, some (later, fault))
    | none =>
      match a.playDial later replay address with
      | (events, ending) => (begun ++ events, ending)

end Attempt

/-- The address of an attempt on a channel. -/
def addressOf (channel : Channel) (number : Nat) : String :=
  channel.name ++ "-" ++ String.ofList (Text.natural number)

/-- The events of attempts from an instant on, the first of them having the given number. After the
last attempt nothing happens any more. -/
def timelineFrom (channel : Channel) (replay : Option LoginReplay) (now number : Nat)
    (backoff : Backoff) : List Attempt → Timeline
  | [] => []
  | a :: rest =>
    match a.play now number replay (addressOf channel number) with
    | (events, none) => events
    | (events, some (failedAt, fault)) =>
      events ++ (failedAt, .failed fault) ::
        match backoff.next? failedAt with
        | none => []
        | some (delay, backoff) =>
          match pause failedAt delay with
          | (later, waited) =>
            waited ++ timelineFrom channel replay later (number + 1) backoff rest

/-- The events of a link that is started at an instant. -/
def timeline (settings : Settings) (channel : Channel) (now : Nat) (attempts : List Attempt) :
    Timeline :=
  timelineFrom channel (settings.loginReplay channel) now 1 (.ofSettings settings.reconnect)
    attempts

end MarketStream.Link
