import Mathlib.Data.List.Basic
import MarketStream.Aggregator
import MarketStream.Proofs.Registry.Entries

/-!
# What requests do to the registry and to the lines

Asking for a stream, or not any more, changes the registry and queues at most one command on the
line of the public channel; a line that comes up on it gets all commands of the registry.

* `Link.Switchboard.queue` — commands are queued on a line if it is open; `write_eq`, `writeAll_eq`;
* `Aggregator.line?` — the line of a channel, if it is up; `Aggregator.send` — what is queued on it;
* `Aggregator.subscribe_of_ok`, `Aggregator.unsubscribe_of_some` — what requests do.
-/

namespace MarketStream

/-! ## Lines -/

namespace Link

/-- Commands are queued on a line if it is open. -/
def Line.queue (line : Line) (cs : List Command) : Line :=
  if line.isOpen then { line with queued := line.queued ++ cs } else line

theorem Line.queue_of_open {line : Line} (h : line.isOpen = true) (cs : List Command) :
    line.queue cs = { line with queued := line.queued ++ cs } := if_pos h

@[simp] theorem Line.isOpen_queue (line : Line) (cs : List Command) :
    (line.queue cs).isOpen = line.isOpen := by
  rw [queue]
  split <;> rfl

theorem Line.queue_queue (line : Line) (cs ds : List Command) :
    (line.queue cs).queue ds = line.queue (cs ++ ds) := by
  by_cases up : line.isOpen = true
  · simp [queue, up]
  · simp [queue, up]

namespace Switchboard

/-- Commands are queued on a line if it is open. -/
def queue (b : Switchboard) (n : Nat) (cs : List Command) : Switchboard :=
  ⟨b.lines.modify n fun line => line.queue cs⟩

/-- The open lines after queuing. -/
theorem open?_queue (b : Switchboard) (n m : Nat) (cs : List Command) :
    (b.queue n cs).open? m = (b.open? m).map fun line => if n = m then line.queue cs else line := by
  rw [open?, queue, List.getElem?_modify, open?]
  rcases b.lines[m]? with _ | line
  · rfl
  · by_cases same : n = m
    · by_cases up : line.isOpen = true
      · simp [same, up, Option.filter]
      · simp [same, up, Option.filter]
    · simp [same]

@[simp] theorem isOpen_queue (b : Switchboard) (n m : Nat) (cs : List Command) :
    (b.queue n cs).isOpen m = b.isOpen m := by
  rw [isOpen, isOpen, open?_queue, Option.isSome_map]

@[simp] theorem length_queue (b : Switchboard) (n : Nat) (cs : List Command) :
    (b.queue n cs).lines.length = b.lines.length :=
  List.length_modify ..

theorem queue_queue (b : Switchboard) (n : Nat) (cs ds : List Command) :
    (b.queue n cs).queue n ds = b.queue n (cs ++ ds) := by
  have twice : (fun line => Line.queue line ds) ∘ (fun line => Line.queue line cs)
      = fun line => Line.queue line (cs ++ ds) := funext fun line => Line.queue_queue line cs ds
  rw [queue, queue, List.modify_modify_eq, twice, queue]

theorem open?_eq_some {b : Switchboard} {n : Nat} {line : Line} :
    b.open? n = some line ↔ b.lines[n]? = some line ∧ line.isOpen = true := Option.filter_eq_some_iff

/-- Queuing on an open line changes this line. -/
theorem queue_of_open {b : Switchboard} {n : Nat} {line : Line} (h : b.open? n = some line)
    (cs : List Command) :
    b.queue n cs = ⟨b.lines.set n { line with queued := line.queued ++ cs }⟩ := by
  obtain ⟨there, up⟩ := open?_eq_some.mp h
  rw [queue, List.modify_eq_set_getElem?, there]
  exact congrArg (fun l => (⟨b.lines.set n l⟩ : Switchboard)) (Line.queue_of_open up cs)

/-- Queuing on a line that stays as it is changes nothing. -/
theorem queue_eq_self {b : Switchboard} {n : Nat} {cs : List Command}
    (same : ∀ line, b.lines[n]? = some line → line.queue cs = line) : b.queue n cs = b := by
  rw [queue, List.modify_eq_set_getElem?]
  cases there : b.lines[n]? with
  | none => rfl
  | some line =>
    obtain ⟨lt, rfl⟩ := List.getElem?_eq_some_iff.mp there
    show (⟨b.lines.set n (Line.queue b.lines[n] cs)⟩ : Switchboard) = b
    rw [same _ there, List.set_getElem_self]

theorem queue_nil (b : Switchboard) (n : Nat) : b.queue n [] = b :=
  queue_eq_self fun line _ => by simp [Line.queue]

theorem queue_of_closed {b : Switchboard} {n : Nat} (h : b.isOpen n = false) (cs : List Command) :
    b.queue n cs = b := by
  refine queue_eq_self fun line there => if_neg fun up => ?_
  rw [isOpen, open?_eq_some.mpr ⟨there, up⟩] at h
  cases h

theorem write_eq (b : Switchboard) (channel : Channel) (n : Nat) (c : Command) :
    b.write channel n c =
      if b.isOpen n then .ok (b.queue n [c]) else .error (.notConnected channel) := by
  rw [write]
  split
  · next up =>
    obtain ⟨line, opened⟩ := Option.isSome_iff_exists.mp up
    rw [queue_of_open opened, List.modify_eq_set_getElem?, (open?_eq_some.mp opened).1]
    rfl
  · rfl

/-- Writing commands one after another queues them all, or none. -/
theorem writeAll_eq (b : Switchboard) (channel : Channel) (n : Nat) (cs : List Command) :
    b.writeAll channel n cs = b.queue n cs := by
  induction cs generalizing b with
  | nil => exact (queue_nil b n).symm
  | cons c rest ih =>
    rw [writeAll, write_eq]
    by_cases up : b.isOpen n = true
    · rw [if_pos up]
      exact (ih (b.queue n [c])).trans (queue_queue b n [c] rest)
    · rw [if_neg up, queue_of_closed (eq_false_of_ne_true up)]

end Switchboard

end Link

/-! ## Requests -/

namespace Aggregator

variable {a : Aggregator} {channel : Channel}

/-- The line of a channel, if it is up. -/
def line? (a : Aggregator) (channel : Channel) : Option Link.Line :=
  (a.writers.get channel).bind a.board.open?

/-- Commands are queued on the line of a channel, if it is up. -/
def send (a : Aggregator) (channel : Channel) (cs : List Command) : Aggregator :=
  { a with board := (a.writers.get channel).elim a.board fun n => a.board.queue n cs }

theorem isConnected_eq (a : Aggregator) (channel : Channel) :
    a.isConnected channel = (a.line? channel).isSome := by
  rw [isConnected, line?]
  cases a.writers.get channel <;> rfl

/-- What is queued comes after what was. -/
theorem line?_send (a : Aggregator) (channel : Channel) (cs : List Command) :
    (a.send channel cs).line? channel = (a.line? channel).map fun line => line.queue cs := by
  show (a.writers.get channel).bind (a.send channel cs).board.open? = _
  rw [line?]
  cases writer : a.writers.get channel with
  | none => rfl
  | some n =>
    have board : (a.send channel cs).board = a.board.queue n cs := by simp [send, writer]
    rw [Option.bind_some, Option.bind_some, board, Link.Switchboard.open?_queue]
    simp

theorem write_eq (a : Aggregator) (channel : Channel) (c : Command) :
    a.write channel c =
      if a.isConnected channel then .ok (a.send channel [c]) else .error (.notConnected channel) := by
  rw [write, isConnected]
  cases writer : a.writers.get channel with
  | none => rfl
  | some n =>
    have board : a.send channel [c] = { a with board := a.board.queue n [c] } := by
      rw [send, writer]
      rfl
    show (a.board.write channel n c).map _ = if a.board.isOpen n then _ else _
    rw [board, Link.Switchboard.write_eq]
    split <;> rfl

/-- Nothing is queued on a channel that is down. -/
theorem send_of_down (down : a.isConnected channel = false) (cs : List Command) :
    a.send channel cs = a := by
  rw [send]
  rw [isConnected] at down
  cases writer : a.writers.get channel with
  | none => rfl
  | some n =>
    rw [writer] at down
    exact congrArg (fun board => { a with board }) (Link.Switchboard.queue_of_closed down cs)

/-- The registry is replaced. -/
def withRegistry (a : Aggregator) (registry : Registry) : Aggregator := { a with registry }

theorem subscribe_of_error {key : StreamKey} {e : Fault}
    (unbuilt : key.normalized.command "subscribe" = .error e) : a.subscribe key = (a, .error e) := by
  rw [subscribe, unbuilt]

/-- A stream whose command can be built is registered, and asked for if the public channel is up. -/
theorem subscribe_of_ok {key : StreamKey} {c : Command}
    (built : key.normalized.command "subscribe" = .ok c) :
    a.subscribe key =
      ((a.withRegistry (a.registry.enrol key.normalized c).1).send .public [c],
        if a.isConnected .public then
          .ok ⟨(a.registry.enrol key.normalized c).2, a.cache.get? key.normalized⟩
        else .error (.notConnected .public)) := by
  simp only [subscribe, built]
  rcases a.registry.enrol key.normalized c with ⟨r, id⟩
  have wrote : write { a with registry := r } .public c =
      if a.isConnected .public then .ok ((a.withRegistry r).send .public [c])
      else .error (.notConnected .public) := (a.withRegistry r).write_eq .public c
  rw [wrote]
  by_cases up : a.isConnected .public = true
  · rw [if_pos up, if_pos up]
    rfl
  · rw [if_neg up, if_neg up, send_of_down (a := a.withRegistry r) (eq_false_of_ne_true up)]
    rfl

theorem unsubscribe_of_none {id : String} (absent : a.registry.remove? id = none) :
    a.unsubscribe id = (a, .error (.notFound ("subscription " ++ id))) := by
  rw [unsubscribe, absent]

/-- A subscription is dropped, and the feed told if the public channel is up. -/
theorem unsubscribe_of_some {id : String} {r : Registry} {s : Subscription}
    (removed : a.registry.remove? id = some (r, s)) :
    a.unsubscribe id =
      ((a.withRegistry r).send .public [s.command.withName "unsubscribe"], .ok ()) := by
  have wrote : write { a with registry := r } .public (s.command.withName "unsubscribe") =
      if a.isConnected .public then
        .ok ((a.withRegistry r).send .public [s.command.withName "unsubscribe"])
      else .error (.notConnected .public) := (a.withRegistry r).write_eq .public _
  have connected : isConnected { a with registry := r } .public = a.isConnected .public := rfl
  simp only [unsubscribe, removed, wrote, connected]
  by_cases up : a.isConnected .public = true
  · rw [if_pos up, if_pos up]
  · rw [if_neg up, send_of_down (a := a.withRegistry r) (eq_false_of_ne_true up)]
    rfl

/-- A line that comes up on the public channel gets all commands of the registry. -/
theorem board_onConnect_public (a : Aggregator) (now : Moment) (n : Nat) :
    (a.onConnect now .public n).board = a.board.queue n a.registry.commands :=
  Link.Switchboard.writeAll_eq _ _ _ _

end Aggregator

end MarketStream
