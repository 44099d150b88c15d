import MarketStream.Link.Greeter
import MarketStream.Proofs.Link.Moves

/-!
# A greeter makes moves

Whatever is done with a link on its own, letting time pass, writing and closing, is nothing but
moves on its link and switchboard, so that what holds of runs of a link holds of it.

* `Circuit.Leads` — moves lead from one state to another;
* `Greeter.Operation`, `Greeter.perform` — what is done with a greeter;
* `Greeter.leads_perform` — one operation; `Greeter.leads_foldl_perform` — any number of them.
-/

namespace MarketStream.Link

/-- Moves lead from one state of a link to another. -/
def Circuit.Leads (c c' : Circuit) : Prop := ∃ moves, c.run moves = c'

namespace Circuit.Leads

variable {c c' c'' : Circuit}

/-- No move at all. -/
theorem refl (c : Circuit) : c.Leads c := ⟨[], rfl⟩

/-- A single move. -/
theorem act (c : Circuit) (m : Move) : c.Leads (c.act m) := ⟨[m], rfl⟩

/-- Moves after moves. -/
theorem trans (h : c.Leads c') (h' : c'.Leads c'') : c.Leads c'' := by
  obtain ⟨moves, rfl⟩ := h
  obtain ⟨later, rfl⟩ := h'
  exact ⟨moves ++ later, List.foldl_append ..⟩

end Circuit.Leads

/-! ## Events that are taken from what is ahead -/

/-- A link with other events ahead of it. -/
def Connection.facing (c : Connection) (ahead : Timeline) : Connection := { c with ahead }

namespace Connection

variable (c : Connection) (ahead : Timeline) (board : Switchboard) (now : Nat)

/-- An event happens whatever is ahead. -/
theorem undergo_facing (e : Event) :
    (c.facing ahead).undergo board now e =
      ((c.undergo board now e).1.facing ahead, (c.undergo board now e).2) := by
  cases e <;> rfl

/-- Queued commands are written whatever is ahead. -/
theorem flush_facing :
    (c.facing ahead).flush board now =
      ((c.flush board now).1.facing ahead, (c.flush board now).2) := by
  obtain ⟨channel, _, past, outlet, written, isClosed⟩ := c
  cases outlet <;> rfl

end Connection

namespace Greeter

/-- The link and the switchboard of a greeter. -/
def circuit (g : Greeter) : Circuit := ⟨g.connection, g.board⟩

/-- The link of a greeter that faces other events. -/
def facing (g : Greeter) (ahead : Timeline) : Circuit := ⟨g.connection.facing ahead, g.board⟩

variable (g : Greeter)

/-- Writing what is queued is a move. -/
theorem leads_flush (ahead : Timeline) : (g.facing ahead).Leads (g.flush.facing ahead) := by
  refine ⟨[.pump g.now], ?_⟩
  simp only [Circuit.run, List.foldl_cons, List.foldl_nil, Circuit.act, Circuit.ofPair, facing,
    Connection.flush_facing, flush]

/-- An event happens in two moves, of which the second is the greeting. -/
theorem leads_undergo (now : Nat) (e : Event) (ahead : Timeline) :
    (g.facing ((now, e) :: ahead)).Leads ((g.undergo now e).facing ahead) := by
  refine ⟨[.next, .rewire (g.undergo now e).board], ?_⟩
  have popped : (g.facing ((now, e) :: ahead)).next =
      .ofPair ((g.connection.facing ahead).undergo g.board now e) := rfl
  simp only [Circuit.run, List.foldl_cons, List.foldl_nil, Circuit.act, popped, Circuit.ofPair,
    Connection.undergo_facing]
  rfl

/-- Events that are taken from what is ahead happen in moves. -/
theorem leads_undergoAll (events ahead : Timeline) :
    (g.facing (events ++ ahead)).Leads ((g.undergoAll events).facing ahead) := by
  induction events generalizing g with
  | nil => exact .refl _
  | cons entry events ih =>
    obtain ⟨now, e⟩ := entry
    have happens := g.leads_undergo now e (events ++ ahead)
    rw [undergoAll]
    split
    · exact (happens.trans (leads_flush _ _)).trans (ih _)
    · exact happens.trans (ih _)

/-! ## Operations -/

/-- What can be done with a greeter. -/
inductive Operation where
  /-- Time passes until an instant. -/
  | advance (limit : Nat)
  /-- A command is queued on the line of the session. -/
  | write (command : Command)
  /-- A command is queued on the line of the first session. -/
  | writeFirst (command : Command)
  /-- The link is closed. -/
  | close

/-- Where an operation leads. -/
def perform (g : Greeter) : Operation → Greeter
  | .advance limit => g.advance limit
  | .write command => (g.write command).1
  | .writeFirst command => (g.writeFirst command).1
  | .close => g.close

/-- Events that happen leave what is ahead. -/
theorem undergoAll_ahead (events : Timeline) :
    (g.undergoAll events).connection.ahead = g.connection.ahead := by
  induction events generalizing g with
  | nil => rfl
  | cons entry events ih =>
    obtain ⟨now, e⟩ := entry
    have happens : (g.undergo now e).connection.ahead = g.connection.ahead :=
      g.connection.undergo_ahead g.board now e
    rw [undergoAll, ih]
    split
    · exact ((g.undergo now e).connection.flush_ahead _ _).trans happens
    · exact happens

/-- What happens until an instant is taken from what is ahead. -/
theorem leads_advance (limit : Nat) : g.circuit.Leads (g.advance limit).circuit := by
  let isDue := fun (entry : Nat × Event) => decide (entry.1 ≤ limit)
  let due := g.connection.ahead.takeWhile isDue
  let later := g.connection.ahead.dropWhile isDue
  let rested : Greeter := { g with connection := g.connection.facing later }
  have parted : g.circuit = rested.facing (due ++ later) := by
    have whole : due ++ later = g.connection.ahead := List.takeWhile_append_dropWhile
    rw [whole]
    rfl
  have arrived : (g.advance limit).circuit = (rested.undergoAll due).facing later := by
    have stays : (rested.undergoAll due).connection.ahead = later := rested.undergoAll_ahead due
    rw [← stays]
    rfl
  rw [parted, arrived]
  exact rested.leads_undergoAll due later

/-- Using the switchboard and writing what is queued are two moves. -/
theorem leads_queue (board : Switchboard) : g.circuit.Leads (circuit (flush { g with board })) :=
  ⟨[.rewire board, .pump g.now], rfl⟩

/-- **One operation** is made of moves. -/
theorem leads_perform (operation : Operation) : g.circuit.Leads (g.perform operation).circuit := by
  cases operation with
  | advance limit => exact g.leads_advance limit
  | write command =>
    simp only [perform, write]
    split
    · exact g.leads_queue _
    · exact .refl _
  | writeFirst command =>
    simp only [perform, writeFirst]
    split
    · exact .refl _
    · split
      · exact g.leads_queue _
      · exact .refl _
  | close => exact .act g.circuit .close

/-- **Any number of operations** is made of moves. -/
theorem leads_foldl_perform (operations : List Operation) :
    g.circuit.Leads (operations.foldl perform g).circuit := by
  induction operations generalizing g with
  | nil => exact .refl _
  | cons operation operations ih => exact (g.leads_perform operation).trans (ih _)

end Greeter
end MarketStream.Link
