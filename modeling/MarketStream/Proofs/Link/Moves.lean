import MarketStream.Link.Connection
import MarketStream.Proofs.Link.Layout

/-!
# Moves of a link

A link is at the mercy of what goes on around it: its next event happens, the commands queued on its
line are written, others use the switchboard, and it may be closed, in any order.

* `Circuit` — a link and a switchboard; `Move` — what can be done with them;
* `Circuit.run`, `Circuit.journal` — where moves lead, and what can be seen of the link on the way;
* `Connection.newsSince_undergo`, `Connection.newsSince_flush` — what an event and writing show;
* `Circuit.run_ahead` — unless the link is closed, each event ahead of it happens in its turn.
-/

namespace MarketStream.Link

/-- A link and the switchboard that its line is on. -/
structure Circuit where
  /-- The link. -/
  connection : Connection
  /-- The switchboard. -/
  board : Switchboard

/-- What can be done with a link and its switchboard. -/
inductive Move where
  /-- The next event happens, if there is any. -/
  | next
  /-- At an instant, what is queued on the line of the session is written. -/
  | pump (now : Nat)
  /-- Others use the switchboard: they queue commands, or their own lines come and go. -/
  | rewire (board : Switchboard)
  /-- The link is closed. -/
  | close
deriving DecidableEq

/-- What can be seen of a link between two of its states. -/
def Connection.newsSince (before after : Connection) : List Sight :=
  ((after.past.drop before.past.length).filter fun entry => entry.2 ≠ .woken).map
      (fun entry => .event entry.1 entry.2) ++
    (after.written.drop before.written.length).map fun entry => .line entry.1 entry.2

namespace Circuit

/-- A link that is started at an instant. -/
def start (settings : Settings) (channel : Channel) (now : Nat) (attempts : List Attempt)
    (board : Switchboard) : Circuit :=
  ⟨.start settings channel now attempts, board⟩

/-- A link and a switchboard, from a pair of them. -/
def ofPair (p : Connection × Switchboard) : Circuit := ⟨p.1, p.2⟩

/-- The next event happens, if there is any. -/
def next (c : Circuit) : Circuit :=
  match c.connection.ahead with
  | [] => c
  | (now, e) :: rest => .ofPair ({ c.connection with ahead := rest }.undergo c.board now e)

/-- Where a move leads. -/
def act (c : Circuit) : Move → Circuit
  | .next => c.next
  | .pump now => .ofPair (c.connection.flush c.board now)
  | .rewire board => { c with board }
  | .close => .ofPair (c.connection.close c.board)

/-- Where moves lead. -/
def run (c : Circuit) (moves : List Move) : Circuit := moves.foldl act c

/-- What can be seen of the link while moves are made. -/
def journal (c : Circuit) : List Move → List Sight
  | [] => []
  | m :: moves => c.connection.newsSince (c.act m).connection ++ (c.act m).journal moves

/-- Whether the link takes commands. -/
def isConnected (c : Circuit) : Bool := c.connection.isConnected c.board

end Circuit

/-! ## What a move shows -/

namespace Connection

/-- What has been added to the past and to what is written is the news. -/
theorem newsSince_eq {before after : Connection} {events : Timeline} {lines : List (Nat × Command)}
    (past : after.past = before.past ++ events)
    (written : after.written = before.written ++ lines) :
    before.newsSince after =
      (events.filter fun entry => entry.2 ≠ .woken).map (fun entry => .event entry.1 entry.2) ++
        lines.map fun entry => .line entry.1 entry.2 := by
  simp only [newsSince, past, written, List.drop_left]

/-- Nothing is seen while nothing happens and nothing is written. -/
theorem newsSince_of_eq {before after : Connection} (past : after.past = before.past)
    (written : after.written = before.written) : before.newsSince after = [] := by
  simp [newsSince, past, written]

variable (c : Connection) (board : Switchboard) (now : Nat)

/-- An event is added to the past. -/
theorem undergo_past (e : Event) : (c.undergo board now e).1.past = c.past ++ [(now, e)] := by
  cases e <;> rfl

/-- An event is seen, with the login that it causes. -/
theorem newsSince_undergo (e : Event) :
    c.newsSince (c.undergo board now e).1 = Sight.ofEvent now e := by
  have past := c.undergo_past board now e
  cases e with
  | opened login failingWrite =>
    have written : (c.undergo board now (.opened login failingWrite)).1.written =
        c.written ++ [(now, login)] := rfl
    exact newsSince_eq past written
  | asked _ | dialled _ | received _ | failed _ | woken =>
    exact newsSince_eq past (List.append_nil c.written).symm

/-- An event leaves what is ahead of a link. -/
theorem undergo_ahead (e : Event) : (c.undergo board now e).1.ahead = c.ahead := by
  cases e <;> rfl

/-- An event does not close a link. -/
theorem undergo_isClosed (e : Event) : (c.undergo board now e).1.isClosed = c.isClosed := by
  cases e <;> rfl

/-- What is seen of writing are lines, and only while a session is open. -/
theorem newsSince_flush :
    ∃ lines : List Command, (c.outlet = none → lines = []) ∧
      c.newsSince (c.flush board now).1 = lines.map (.line now) := by
  cases out : c.outlet with
  | none =>
    refine ⟨[], fun _ => rfl, newsSince_of_eq ?_ ?_⟩ <;> simp only [flush, out]
  | some o =>
    have past : (c.flush board now).1.past = c.past ++ [] := by simp [flush, out]
    have written : (c.flush board now).1.written = c.written ++
        (writable o (board.drain o.line).2).1.map fun command => (now, command) := by
      simp only [flush, out]
    refine ⟨(writable o (board.drain o.line).2).1, nofun, ?_⟩
    simp [newsSince_eq past written]

/-- Writing leaves what is ahead of a link. -/
theorem flush_ahead : (c.flush board now).1.ahead = c.ahead := by
  unfold flush
  cases c.outlet <;> rfl

/-- Writing does not close a link. -/
theorem flush_isClosed : (c.flush board now).1.isClosed = c.isClosed := by
  unfold flush
  cases c.outlet <;> rfl

/-- Writing neither opens nor ends a session. -/
theorem flush_outlet : (c.flush board now).1.outlet.isSome = c.outlet.isSome := by
  unfold flush
  cases h : c.outlet with
  | none => simp [h]
  | some o => rfl

end Connection

/-! ## What a move leaves ahead -/

namespace Circuit

/-- A move that does not close a link takes at most the next event from what is ahead. -/
theorem act_ahead (c : Circuit) {m : Move} (h : m ≠ .close) :
    (c.act m).connection.ahead = c.connection.ahead.drop (if m = .next then 1 else 0) ∧
      (c.act m).connection.isClosed = c.connection.isClosed := by
  cases m with
  | next =>
    simp only [act, next]
    split
    next none => simp [none]
    next now e rest ahead =>
      rw [ofPair, Connection.undergo_ahead, Connection.undergo_isClosed, ahead]
      exact ⟨rfl, rfl⟩
  | pump now => exact ⟨c.connection.flush_ahead c.board now, c.connection.flush_isClosed c.board now⟩
  | rewire board => exact ⟨rfl, rfl⟩
  | close => exact absurd rfl h

/-- Moves that do not close a link take as many events from what is ahead as they let happen. -/
theorem run_ahead (c : Circuit) {moves : List Move} (h : .close ∉ moves) :
    (c.run moves).connection.ahead = c.connection.ahead.drop (moves.count .next) ∧
      (c.run moves).connection.isClosed = c.connection.isClosed := by
  induction moves generalizing c with
  | nil => exact ⟨rfl, rfl⟩
  | cons m moves ih =>
    obtain ⟨notClose, rest⟩ : .close ≠ m ∧ .close ∉ moves := by simpa using h
    obtain ⟨first, closed⟩ := c.act_ahead notClose.symm
    obtain ⟨later, stays⟩ := ih (c.act m) rest
    refine ⟨?_, stays.trans closed⟩
    calc (c.run (m :: moves)).connection.ahead
        = (c.act m).connection.ahead.drop (moves.count .next) := later
      _ = (c.connection.ahead.drop (if m = .next then 1 else 0)).drop (moves.count .next) := by
          rw [first]
      _ = c.connection.ahead.drop ((m :: moves).count .next) := by
          rw [List.drop_drop, List.count_cons, Nat.add_comm]
          simp only [beq_iff_eq]

end Circuit
end MarketStream.Link
