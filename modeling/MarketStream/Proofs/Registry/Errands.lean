import MarketStream.Proofs.Registry.View

/-!
# Operations under way side by side

An operation of an aggregator changes the registry or the lines in a first step, and writes to a line
in later ones. Between two of its steps others may begin, go on and end: callers do not wait for each
other, nor for a channel that comes up.

* `Errand` — what is left to do of an operation; `Aggregator.begun`, `Errand.step` — its steps;
* `Scene` — an aggregator with the operations that are under way, and what was written of late;
* `Act`, `Scene.act`, `Scene.after` — steps of operations in any order, and where they lead;
* `Scene.run_alone` — an operation that nobody interrupts does what it does as a whole;
* `Aggregator.heard?_step` — what the feed takes a step for.
-/

namespace MarketStream

/-! ## Steps -/

/-- What is left to do of an operation that has begun. -/
inductive Errand where
  /-- The commands of the registry are to be copied for a new line. -/
  | copy (n : Nat)
  /-- Commands that were copied are to be written to a line, one by one. -/
  | recite (n : Nat) (cs : List Command)
  /-- A stream was registered and is to be asked for. -/
  | ask (c : Command)
  /-- A subscription was dropped and the feed is to be told. -/
  | retract (c : Command)

namespace Aggregator

/-- The public channel has a line to write to, which nothing was written to yet. -/
def rewired (a : Aggregator) (now : Moment) (n : Nat) : Aggregator :=
  { a with
    writers := a.writers.set .public (some n)
    liveness := a.liveness.touch .public now }

/-- The first step of an operation, and what is left to do of it. -/
def begun (a : Aggregator) : Turn → Aggregator × Option Errand
  | .subscribe key =>
    match key.normalized.command "subscribe" with
    | .error _ => (a, none)
    | .ok c => (a.withRegistry (a.registry.enrol key.normalized c).1, some (.ask c))
  | .unsubscribe id =>
    match a.registry.remove? id with
    | none => (a, none)
    | some (r, s) => (a.withRegistry r, some (.retract (s.command.withName "unsubscribe")))
  | .connect now =>
    (a.attach.rewired now a.board.lines.length, some (.copy a.board.lines.length))
  | .error now fault => (a.onError now .public fault, none)

end Aggregator

namespace Errand

/-- The next step of an operation, and what is left to do then. Commands are written up to the first
that fails, and the feed is told of a dropped subscription only if the public channel is up. -/
def step (a : Aggregator) : Errand → Aggregator × Option Errand
  | .copy n => (a, some (.recite n a.registry.commands))
  | .recite _ [] => (a, none)
  | .recite n (c :: rest) =>
    match a.board.write .public n c with
    | .ok board => ({ a with board }, some (.recite n rest))
    | .error _ => (a, none)
  | .ask c =>
    match a.write .public c with
    | .ok a => (a, none)
    | .error _ => (a, none)
  | .retract c =>
    if a.isConnected .public then
      match a.write .public c with
      | .ok a => (a, none)
      | .error _ => (a, none)
    else (a, none)

/-- The command that the next step writes to the line of the public channel, if it is up. -/
def spoken? (a : Aggregator) : Errand → Option Command
  | .copy _ | .recite _ [] => none
  | .recite n (c :: _) =>
    if a.writers.get .public = some n ∧ a.isConnected .public then some c else none
  | .ask c | .retract c => if a.isConnected .public then some c else none

end Errand

/-! ## Scenes -/

/-- The commands written to the line of the public channel since it came up, oldest first, each with
the registry as it was then. -/
abbrev Minutes := List (Command × Registry)

/-- An aggregator with what is left to do of the operations that are under way. -/
structure Scene where
  /-- The aggregator. -/
  aggregator : Aggregator
  /-- The operations that have begun and not ended. -/
  errands : List Errand
  /-- What was written to the line of the public channel. -/
  minutes : Minutes

/-- What may happen next. -/
inductive Act where
  /-- An operation begins. -/
  | begin (t : Turn)
  /-- The operation at a place takes its next step. -/
  | proceed (i : Nat)
  /-- The other end of a line goes away. -/
  | hangUp (n : Nat)

/-- Whether an operation brings up a new line. -/
def Turn.isConnect : Turn → Bool
  | .connect _ => true
  | .subscribe _ | .unsubscribe _ | .error .. => false

namespace Scene

/-- A new aggregator that nobody uses. -/
def fresh (settings : Settings) (ids : Nat → String) : Scene := ⟨.fresh settings ids, [], []⟩

/-- An operation begins. The minutes start anew with a new line. -/
def begin (s : Scene) (t : Turn) : Scene :=
  ⟨(s.aggregator.begun t).1, s.errands ++ (s.aggregator.begun t).2.toList,
    if t.isConnect then [] else s.minutes⟩

/-- The operation at a place takes its next step. -/
def proceed (s : Scene) (i : Nat) : Scene :=
  match s.errands[i]? with
  | none => s
  | some e =>
    ⟨(e.step s.aggregator).1,
      s.errands.take i ++ (e.step s.aggregator).2.toList ++ s.errands.drop (i + 1),
      s.minutes ++ ((e.spoken? s.aggregator).map fun c => (c, s.aggregator.registry)).toList⟩

/-- The other end of a line goes away. -/
def hangUp (s : Scene) (n : Nat) : Scene :=
  { s with aggregator := { s.aggregator with board := s.aggregator.board.hangUp n } }

/-- Where something that happens leads. -/
def act (s : Scene) : Act → Scene
  | .begin t => s.begin t
  | .proceed i => s.proceed i
  | .hangUp n => s.hangUp n

/-- Where all that happens leads. -/
def run (s : Scene) (acts : List Act) : Scene := acts.foldl act s

/-- A new aggregator after all that happened. -/
def after (settings : Settings) (ids : Nat → String) (acts : List Act) : Scene :=
  (fresh settings ids).run acts

theorem after_concat (settings : Settings) (ids : Nat → String) (acts : List Act) (next : Act) :
    after settings ids (acts ++ [next]) = (after settings ids acts).act next :=
  List.foldl_concat ..

end Scene

/-- The operations that begin. -/
def begunTurns (acts : List Act) : List Turn :=
  acts.filterMap fun
    | .begin t => some t
    | .proceed _ | .hangUp _ => none

/-! ## What steps do -/

namespace Errand

variable (a : Aggregator)

theorem step_recite (n : Nat) (c : Command) (rest : List Command) :
    (recite n (c :: rest)).step a = ({ a with board := a.board.queue n [c] },
      if a.board.isOpen n then some (.recite n rest) else none) := by
  rw [step, Link.Switchboard.write_eq]
  by_cases up : a.board.isOpen n = true
  · rw [if_pos up, if_pos up]
  · rw [if_neg up, if_neg up, Link.Switchboard.queue_of_closed (eq_false_of_ne_true up)]

theorem step_ask (c : Command) : (ask c).step a = (a.send .public [c], none) := by
  rw [step, Aggregator.write_eq]
  by_cases up : a.isConnected .public = true
  · rw [if_pos up]
  · rw [if_neg up, Aggregator.send_of_down (eq_false_of_ne_true up)]

theorem step_retract (c : Command) : (retract c).step a = (a.send .public [c], none) := by
  rw [step, Aggregator.write_eq]
  by_cases up : a.isConnected .public = true
  · rw [if_pos up, if_pos up]
  · rw [if_neg up, Aggregator.send_of_down (eq_false_of_ne_true up)]

end Errand

/-- Sending changes what is queued on a line, and nothing else. -/
theorem Aggregator.send_eq (a : Aggregator) (channel : Channel) (cs : List Command) :
    ∃ board, a.send channel cs = { a with board } ∧
      board.lines.length = a.board.lines.length := by
  refine ⟨_, rfl, ?_⟩
  cases a.writers.get channel with
  | none => rfl
  | some n => exact Link.Switchboard.length_queue ..

/-- A step writes to lines and leaves the rest of the aggregator as it is. -/
theorem Errand.step_fst (e : Errand) (a : Aggregator) :
    ∃ board, (e.step a).1 = { a with board } ∧ board.lines.length = a.board.lines.length := by
  cases e with
  | copy n => exact ⟨a.board, rfl, rfl⟩
  | recite n cs =>
    cases cs with
    | nil => exact ⟨a.board, rfl, rfl⟩
    | cons c rest =>
      rw [step_recite]
      exact ⟨_, rfl, Link.Switchboard.length_queue ..⟩
  | ask c =>
    rw [step_ask]
    exact a.send_eq .public [c]
  | retract c =>
    rw [step_retract]
    exact a.send_eq .public [c]

namespace Scene

/-! ## Operations that nobody interrupts -/

/-- An aggregator with nothing under way. -/
def IsAt (s : Scene) (a : Aggregator) : Prop := s.aggregator = a ∧ s.errands = []

/-- Commands that nobody interrupts are written like any list of commands. -/
theorem run_recite (a : Aggregator) (n : Nat) (cs : List Command) (m : Minutes) :
    ∃ steps, ((Scene.mk a [.recite n cs] m).run (List.replicate steps (.proceed 0))).IsAt
      { a with board := a.board.writeAll .public n cs } := by
  induction cs generalizing a m with
  | nil => exact ⟨1, rfl, rfl⟩
  | cons c rest ih =>
    cases wrote : a.board.write .public n c with
    | error e =>
      refine ⟨1, ?_⟩
      simp [run, act, proceed, Errand.step, wrote, Link.Switchboard.writeAll, IsAt]
    | ok board =>
      obtain ⟨steps, done⟩ := ih { a with board }
        (m ++ (((Errand.recite n (c :: rest)).spoken? a).map fun d => (d, a.registry)).toList)
      refine ⟨steps + 1, ?_⟩
      rw [List.replicate_succ, run, List.foldl_cons]
      simp only [act, proceed, List.getElem?_cons_zero, Errand.step, wrote,
        Link.Switchboard.writeAll]
      exact done

/-- **Alone, an operation is what it is as a whole.** If nothing happens between its steps, an
operation that begins ends, and leaves the aggregator as it does when it is done at once. -/
theorem run_alone (a : Aggregator) (t : Turn) (m : Minutes) :
    ∃ steps, ((Scene.mk a [] m).run (.begin t :: List.replicate steps (.proceed 0))).IsAt
      (a.turn t) := by
  cases t with
  | subscribe key =>
    cases built : key.normalized.command "subscribe" with
    | error e =>
      refine ⟨0, ?_⟩
      simp [run, act, begin, Aggregator.begun, built, Aggregator.turn,
        Aggregator.subscribe_of_error built, IsAt]
    | ok c =>
      refine ⟨1, ?_⟩
      simp [run, act, begin, Aggregator.begun, built, Aggregator.turn,
        Aggregator.subscribe_of_ok built, proceed, Errand.step_ask, IsAt]
  | unsubscribe id =>
    cases removed : a.registry.remove? id with
    | none =>
      refine ⟨0, ?_⟩
      simp [run, act, begin, Aggregator.begun, removed, Aggregator.turn,
        Aggregator.unsubscribe_of_none removed, IsAt]
    | some pair =>
      obtain ⟨r, s⟩ := pair
      refine ⟨1, ?_⟩
      simp [run, act, begin, Aggregator.begun, removed, Aggregator.turn,
        Aggregator.unsubscribe_of_some removed, proceed, Errand.step_retract, IsAt]
  | connect now =>
    obtain ⟨steps, done⟩ := run_recite (a.attach.rewired now a.board.lines.length)
      a.board.lines.length a.registry.commands []
    exact ⟨steps + 1, done⟩
  | error now fault => exact ⟨0, rfl, rfl⟩

end Scene

/-! ## What the feed hears of a step -/

namespace Aggregator

/-- The feed hears what a step writes to the line of the public channel, and nothing else. -/
theorem heard?_step (a : Aggregator) (e : Errand) :
    (e.step a).1.heard? = a.heard?.map fun on => (e.spoken? a).elim on (obey on) := by
  have sent : ∀ c, (a.send .public [c]).heard? = a.heard?.map fun on =>
      (if a.isConnected .public then some c else none).elim on (obey on) := by
    intro c
    rw [heard?_send, ← isSome_heard?]
    cases a.heard? <;> rfl
  cases e with
  | copy n => exact (Option.map_id' ..).symm
  | ask c =>
    rw [Errand.step_ask]
    exact sent c
  | retract c =>
    rw [Errand.step_retract]
    exact sent c
  | recite n cs =>
    cases cs with
    | nil => exact (Option.map_id' ..).symm
    | cons c rest =>
      rw [Errand.step_recite]
      by_cases own : a.writers.get .public = some n
      · -- The line is that of the public channel, so writing to it is sending on the channel.
        have same : { a with board := a.board.queue n [c] } = a.send .public [c] := by
          rw [send, own]
          rfl
        have spoken : (Errand.recite n (c :: rest)).spoken? a
            = if a.isConnected .public then some c else none := by
          simp [Errand.spoken?, own]
        rw [spoken, same]
        exact sent c
      · have silent : (Errand.recite n (c :: rest)).spoken? a = none := by
          simp [Errand.spoken?, own]
        rw [silent]
        show Option.map _ ((a.writers.get .public).bind (a.board.queue n [c]).open?) = _
        rw [heard?, line?]
        cases writer : a.writers.get .public with
        | none => rfl
        | some m =>
          have other : n ≠ m := by
            rintro rfl
            exact own writer
          rw [Option.bind_some, Option.bind_some, Link.Switchboard.open?_queue]
          simp [other, Function.comp_def]

end Aggregator

end MarketStream
