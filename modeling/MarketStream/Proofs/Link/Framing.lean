import MarketStream.Proofs.Link.Lines
import MarketStream.Proofs.Link.Moves
import MarketStream.Proofs.Registry.Requests

/-!
# What a session sends

While a session is open its line can be written to, frames arrive, what is queued is written, and at
some point the attempt ends or the link is closed. Whatever happens in whatever order, what is sent
begins with the login and goes on with the commands in the order in which they were queued, and its
bytes fall into one line for each of them.

* `Use` — what goes on around a session; `Circuit.serve` — where it leads;
* `Serves`, `Serves.use` — what is sent and what is queued make up all that was asked for;
* `Lasts`, `Lasts.use` — a session on which no write fails stays open until something ends it;
* `session_framed` — one line for each command, and which lines are read back.
-/

namespace MarketStream.Link

/-- What goes on around a session. -/
inductive Use where
  /-- A command is queued on a line, if that is open. -/
  | write (line : Nat) (command : Command)
  /-- A frame arrives. -/
  | hear (now : Nat) (frame : Frame)
  /-- What is queued on the line of the session is written. -/
  | pump (now : Nat)
  /-- The attempt ends. -/
  | fail (now : Nat) (fault : Fault)
  /-- The link is closed. -/
  | close
deriving DecidableEq

namespace Use

/-- The command that is to be queued on a line. -/
def asked (n : Nat) : Use → List Command
  | .write line command => if line = n then [command] else []
  | .hear .. | .pump _ | .fail .. | .close => []

/-- Whether it ends the session. -/
def isEnd : Use → Bool
  | .fail .. | .close => true
  | .write .. | .hear .. | .pump _ => false

end Use

namespace Circuit

/-- A session opens under a key, perhaps with a replay. -/
def login (c : Circuit) (now : Nat) (key : String) (replay : Option LoginReplay)
    (failingWrite : Option Nat) : Circuit :=
  .ofPair (c.connection.undergo c.board now (.opened (.login key replay) failingWrite))

/-- Where a use of the session leads. -/
def use (c : Circuit) : Use → Circuit
  | .write line command =>
    match c.board.write c.connection.channel line command with
    | .ok board => { c with board }
    | .error _ => c
  | .hear now frame => .ofPair (c.connection.undergo c.board now (.received frame))
  | .pump now => .ofPair (c.connection.flush c.board now)
  | .fail now fault => .ofPair (c.connection.undergo c.board now (.failed fault))
  | .close => .ofPair (c.connection.close c.board)

/-- Where uses of the session lead. -/
def serve (c : Circuit) (uses : List Use) : Circuit := uses.foldl use c

/-- Writing to a line queues the command if the line is open. -/
theorem use_write (c : Circuit) (line : Nat) (command : Command) :
    c.use (.write line command) = ⟨c.connection, c.board.queue line [command]⟩ := by
  rw [use, Switchboard.write_eq]
  by_cases up : c.board.isOpen line = true
  · rw [if_pos up]
  · rw [if_neg up, Switchboard.queue_of_closed (eq_false_of_ne_true up)]

end Circuit

/-- The commands written between two states of a link. -/
def Connection.sentSince (before after : Connection) : List Command :=
  (after.written.drop before.written.length).map Prod.snd

/-- What is written next is sent after what was sent before. -/
theorem Connection.sentSince_append {before now later : Connection} {news : List (Nat × Command)}
    (grown : before.written.length ≤ now.written.length)
    (written : later.written = now.written ++ news) :
    before.sentSince later = before.sentSince now ++ news.map Prod.snd := by
  rw [sentSince, written, List.drop_append_of_le_length grown, List.map_append, sentSince]

namespace Connection

/-- What can be written of what is queued comes first in it, and is all of it unless a write
fails. -/
theorem writable_spec (o : Outlet) (queued : List Command) :
    ∃ rest, queued = (writable o queued).1 ++ rest ∧
      ((writable o queued).2 = false → rest = []) := by
  induction queued generalizing o with
  | nil => exact ⟨[], rfl, fun _ => rfl⟩
  | cons command queued ih =>
    rw [writable]
    split
    · exact ⟨command :: queued, rfl, fun failed => by cases failed⟩
    · obtain ⟨rest, eq, all⟩ := ih { o with count := o.count + 1 }
      exact ⟨rest, congrArg (command :: ·) eq, all⟩

/-- Unless some write is to fail, none does. -/
theorem writable_of_none {o : Outlet} (h : o.failingWrite = none) (queued : List Command) :
    (writable o queued).2 = false := by
  induction queued generalizing o with
  | nil => rfl
  | cons command queued ih =>
    have fine : ¬ failsAt o.failingWrite (o.count + 1) = true := by
      rw [h]
      exact Bool.false_ne_true
    rw [writable, if_neg fine]
    exact ih h

end Connection

/-! ## Lines -/

section

variable {board : Switchboard} {n : Nat} {line : Line}

theorem getElem?_queue (there : board.lines[n]? = some line) (m : Nat) (commands : List Command) :
    (board.queue m commands).lines[n]? = some (if m = n then line.queue commands else line) := by
  rw [Switchboard.queue, List.getElem?_modify, there]
  rfl

theorem drain_of_getElem? (there : board.lines[n]? = some line) :
    (board.drain n).2 = line.queued ∧
      (board.drain n).1.lines[n]? = some { line with queued := [] } := by
  rw [Switchboard.drain, List.getElem?_modify, there]
  exact ⟨rfl, congrArg some (if_pos rfl)⟩

theorem getElem?_hangUp (there : board.lines[n]? = some line) :
    (board.hangUp n).lines[n]? = some { line with isOpen := false, queued := [] } := by
  rw [Switchboard.hangUp, List.getElem?_modify, there]
  exact congrArg some (if_pos rfl)

end

/-- What writing does to a session and to its line, of which `sent` is written: the line is left
empty, and open only if it was and nothing is unsent. -/
structure Pumped (c : Circuit) (now : Nat) (o : Outlet) (line : Line) (sent unsent : List Command)
    (after : Circuit) (left : Line) : Prop where
  /-- What is written comes first. -/
  split : line.queued = sent ++ unsent
  /-- It is written at this instant. -/
  written : after.connection.written =
    c.connection.written ++ sent.map fun command => (now, command)
  /-- The session goes on. -/
  outlet : ∃ count, after.connection.outlet = some { o with count }
  /-- The line is as it is left. -/
  there : after.board.lines[o.line]? = some left
  /-- Nothing is queued. -/
  queued : left.queued = []
  /-- If the line is open, it was, and everything is sent. -/
  open_ : left.isOpen = true → line.isOpen = true ∧ unsent = []
  /-- The line stays open if no write is to fail. -/
  stays : o.failingWrite = none → left.isOpen = line.isOpen

theorem Circuit.pumped {c : Circuit} {o : Outlet} {line : Line} (out : c.connection.outlet = some o)
    (there : c.board.lines[o.line]? = some line) (now : Nat) :
    ∃ sent unsent left, Pumped c now o line sent unsent (c.use (.pump now)) left := by
  obtain ⟨taken, drained⟩ := drain_of_getElem? there
  obtain ⟨unsent, split, all⟩ := Connection.writable_spec o line.queued
  have fine := fun reliable => Connection.writable_of_none (o := o) reliable line.queued
  rcases writable : Connection.writable o line.queued with ⟨sent, failed⟩
  rw [writable] at split all fine
  have after : c.use (.pump now) = ⟨{ c.connection with
      outlet := some { o with count := o.count + sent.length }
      written := c.connection.written ++ sent.map fun command => (now, command) },
      if failed then (c.board.drain o.line).1.hangUp o.line else (c.board.drain o.line).1⟩ := by
    simp only [use, Connection.flush, out, taken, writable, ofPair]
  rw [after]
  cases failed with
  | false =>
    exact ⟨sent, unsent, _, split, rfl, ⟨_, rfl⟩, drained, rfl, fun up => ⟨up, all rfl⟩,
      fun _ => rfl⟩
  | true =>
    exact ⟨sent, unsent, _, split, rfl, ⟨_, rfl⟩, getElem?_hangUp drained, rfl,
      fun up => (by cases up), fun reliable => (by cases fine reliable)⟩

/-- When a session ends, its line goes down. -/
theorem Circuit.hangUp_cases (c : Circuit) :
    (c.connection.outlet = none ∧ (c.connection.hangUp c.board).2 = c.board) ∨
      ∃ o, c.connection.outlet = some o ∧
        (c.connection.hangUp c.board).2 = c.board.hangUp o.line := by
  cases out : c.connection.outlet with
  | none => exact .inl ⟨rfl, by rw [Connection.hangUp, out]; rfl⟩
  | some o => exact .inr ⟨o, rfl, by rw [Connection.hangUp, out]; rfl⟩

/-! ## Nothing is lost or put out of order -/

/-- Of the commands asked for on the line of a session, those sent come first, and the others are
queued as long as the line is open. -/
structure Serves (n : Nat) (before : Connection) (asked : List Command) (c : Circuit) : Prop where
  /-- What is written has been added to what was. -/
  grown : before.written.length ≤ c.connection.written.length
  /-- The session, while there is one, has this line. -/
  outlet : ∀ o ∈ c.connection.outlet, o.line = n
  /-- What is not sent is queued. -/
  sent : ∃ rest line, asked = before.sentSince c.connection ++ rest ∧
    c.board.lines[n]? = some line ∧ line.queued = if line.isOpen then rest else []

namespace Serves

variable {n : Nat} {before : Connection} {asked : List Command} {c : Circuit}

/-- A command that is asked for is queued unless the line is down. -/
theorem write (h : Serves n before asked c) (m : Nat) (command : Command) :
    Serves n before (asked ++ (Use.write m command).asked n) (c.use (.write m command)) := by
  obtain ⟨rest, line, eq, there, queued⟩ := h.sent
  rw [Circuit.use_write, Use.asked]
  refine ⟨h.grown, h.outlet, ?_⟩
  by_cases same : m = n
  · refine ⟨rest ++ [command], line.queue [command], ?_, ?_, ?_⟩
    · rw [if_pos same, eq, List.append_assoc]
    · rw [getElem?_queue there, if_pos same]
    · rw [Line.isOpen_queue]
      by_cases up : line.isOpen = true
      · rw [Line.queue_of_open up, if_pos up, queued, if_pos up]
      · rw [Line.queue, if_neg up, if_neg up, queued, if_neg up]
  · refine ⟨rest, line, ?_, ?_, queued⟩
    · rw [if_neg same, List.append_nil, eq]
    · rw [getElem?_queue there, if_neg same]

/-- What can be written is sent; if a write fails, the line goes down. -/
theorem pump (h : Serves n before asked c) (now : Nat) :
    Serves n before asked (c.use (.pump now)) := by
  obtain ⟨rest, line, eq, there, queued⟩ := h.sent
  cases out : c.connection.outlet with
  | none =>
    have same : c.use (.pump now) = c := by simp only [Circuit.use, Connection.flush, out]; rfl
    rw [same]
    exact h
  | some o =>
    obtain rfl := h.outlet o out
    obtain ⟨sent, unsent, left, pumped⟩ := Circuit.pumped out there now
    obtain ⟨count, out'⟩ := pumped.outlet
    have news : before.sentSince (c.use (.pump now)).connection
        = before.sentSince c.connection ++ sent := by
      rw [Connection.sentSince_append h.grown pumped.written, List.map_map]
      exact congrArg _ (List.map_id' sent)
    refine ⟨?_, ?_, ?_⟩
    · rw [pumped.written, List.length_append]
      exact Nat.le_add_right_of_le h.grown
    · intro o' some_o'
      rw [out'] at some_o'
      rw [← Option.some.inj some_o']
    -- On a line that is down nothing was queued, so nothing is sent.
    · by_cases up : line.isOpen = true
      · rw [if_pos up] at queued
        refine ⟨unsent, left, ?_, pumped.there, ?_⟩
        · rw [news, List.append_assoc, ← pumped.split, queued, eq]
        · rw [pumped.queued]
          by_cases stillUp : left.isOpen = true
          · rw [(pumped.open_ stillUp).2, ite_self]
          · rw [if_neg stillUp]
      · rw [if_neg up, pumped.split, List.append_eq_nil_iff] at queued
        refine ⟨rest, left, ?_, pumped.there, ?_⟩
        · rw [news, queued.1, List.append_nil, eq]
        · rw [pumped.queued, if_neg fun stillUp => up (pumped.open_ stillUp).1]

/-- When the session ends, what is queued is lost. -/
theorem hangUp (h : Serves n before asked c) :
    Serves n before asked (.ofPair (c.connection.hangUp c.board)) := by
  obtain ⟨rest, line, eq, there, queued⟩ := h.sent
  refine ⟨h.grown, fun o none_o => (by cases none_o), rest, ?_⟩
  rcases c.hangUp_cases with ⟨-, board⟩ | ⟨o, out, board⟩
  · refine ⟨line, eq, ?_, queued⟩
    rw [Circuit.ofPair, board, there]
  · refine ⟨{ line with isOpen := false, queued := [] }, eq, ?_, rfl⟩
    rw [Circuit.ofPair, board, h.outlet o out, getElem?_hangUp there]

/-- One use of the session. -/
theorem use (h : Serves n before asked c) (u : Use) :
    Serves n before (asked ++ u.asked n) (c.use u) := by
  cases u with
  | write m command => exact h.write m command
  | hear now frame =>
    rw [Use.asked, List.append_nil]
    exact ⟨h.grown, h.outlet, h.sent⟩
  | pump now =>
    rw [Use.asked, List.append_nil]
    exact h.pump now
  | fail now fault =>
    rw [Use.asked, List.append_nil]
    have same : Serves n before asked
        ⟨{ c.connection with past := c.connection.past ++ [(now, .failed fault)] }, c.board⟩ :=
      ⟨h.grown, h.outlet, h.sent⟩
    exact same.hangUp
  | close =>
    rw [Use.asked, List.append_nil]
    have same : Serves n before asked
        ⟨{ c.connection with ahead := [], isClosed := true }, c.board⟩ :=
      ⟨h.grown, h.outlet, h.sent⟩
    exact same.hangUp

/-- Any number of uses. -/
theorem serve (h : Serves n before asked c) (uses : List Use) :
    Serves n before (asked ++ uses.flatMap (Use.asked n)) (c.serve uses) := by
  induction uses generalizing asked c with
  | nil =>
    rw [List.flatMap_nil, List.append_nil]
    exact h
  | cons u uses ih =>
    rw [List.flatMap_cons, ← List.append_assoc]
    exact ih (h.use u)

end Serves

/-! ## Sessions that last -/

/-- The session of a line goes on, and no write is to fail. -/
structure Lasts (n : Nat) (c : Circuit) : Prop where
  /-- There is a way out, on which no write fails. -/
  outlet : ∃ o, c.connection.outlet = some o ∧ o.line = n ∧ o.failingWrite = none
  /-- The line is open. -/
  line : ∃ line, c.board.lines[n]? = some line ∧ line.isOpen = true

namespace Lasts

variable {n : Nat} {c : Circuit}

/-- Everything that is queued is written, and the session goes on. -/
theorem pump (h : Lasts n c) (now : Nat) :
    Lasts n (c.use (.pump now)) ∧
      ∃ line, (c.use (.pump now)).board.lines[n]? = some line ∧ line.queued = [] := by
  obtain ⟨o, out, rfl, reliable⟩ := h.outlet
  obtain ⟨line, there, up⟩ := h.line
  obtain ⟨sent, unsent, left, pumped⟩ := Circuit.pumped out there now
  obtain ⟨count, out'⟩ := pumped.outlet
  exact ⟨⟨⟨_, out', rfl, reliable⟩, left, pumped.there, (pumped.stays reliable).trans up⟩,
    left, pumped.there, pumped.queued⟩

/-- A session lasts until something ends it. -/
theorem use (h : Lasts n c) {u : Use} (goesOn : u.isEnd = false) : Lasts n (c.use u) := by
  cases u with
  | write m command =>
    obtain ⟨line, there, up⟩ := h.line
    rw [Circuit.use_write]
    refine ⟨h.outlet, _, getElem?_queue there m [command], ?_⟩
    split
    · rw [Line.isOpen_queue, up]
    · exact up
  | hear now frame => exact ⟨h.outlet, h.line⟩
  | pump now => exact (h.pump now).1
  | fail now fault => cases goesOn
  | close => cases goesOn

theorem serve (h : Lasts n c) {uses : List Use} (goesOn : ∀ u ∈ uses, u.isEnd = false) :
    Lasts n (c.serve uses) := by
  induction uses generalizing c with
  | nil => exact h
  | cons u uses ih =>
    obtain ⟨first, others⟩ := List.forall_mem_cons.mp goesOn
    exact ih (h.use first) others

end Lasts

/-! ## Sessions -/

section

variable (c : Circuit) (now : Nat) (key : String) (replay : Option LoginReplay)

/-- The line of a session that opens is the next one, and the login is written at once. -/
theorem serves_login (failingWrite : Option Nat) :
    Serves c.board.lines.length c.connection [.login key replay]
      (c.login now key replay failingWrite) := by
  have written : (c.login now key replay failingWrite).connection.written
      = c.connection.written ++ [(now, .login key replay)] := rfl
  refine ⟨?_, ?_, [], _, ?_, List.getElem?_concat_length, rfl⟩
  · rw [written, List.length_append]
    exact Nat.le_add_right _ _
  · intro o some_o
    rw [← Option.some.inj some_o]
  · rw [Connection.sentSince, written, List.drop_left, List.append_nil]
    rfl

theorem lasts_login :
    Lasts c.board.lines.length (c.login now key replay none) :=
  ⟨⟨_, rfl, rfl, rfl⟩, _, List.getElem?_concat_length, rfl⟩

/-- **One line for each command.** A session opens under any key, perhaps with a replay, and
anything goes on around it. What is sent is the login and then the commands in the order in which
they were queued on its line, up to some point; all of them as soon as what is queued is written, if
no write fails and nothing has ended the session. The bytes, cut after each end of a line, are one
line for each command and nothing else. The login is read back from its line, and any other command
without measured numbers in its arguments if the objects in these have ordinary first keys and
brackets nest at most 126 deep there, and not otherwise. -/
theorem session_framed (failingWrite : Option Nat) (uses : List Use) :
    let opened := c.login now key replay failingWrite
    let asked := Command.login key replay :: uses.flatMap (Use.asked c.board.lines.length)
    let sent := c.connection.sentSince (opened.serve uses).connection
    sent <+: asked ∧
      (failingWrite = none → (∀ u ∈ uses, u.isEnd = false) → ∀ later,
        c.connection.sentSince ((opened.serve uses).use (.pump later)).connection = asked) ∧
      cutLines [] (wire sent) = (sent.map fun command => utf8 command.line, []) ∧
      Command.decode? (utf8 (Command.login key replay).line) = some (.login key replay) ∧
      ∀ command ∈ sent, command.args.floats = [] →
        (Command.decode? (utf8 command.line) = some command ↔
          command.args.Plain ∧ command.args.depth ≤ Json.roomyField) := by
  intro opened asked sent
  have serves := (serves_login c now key replay failingWrite).serve uses
  refine ⟨?_, ?_, cutLines_wire sent, Command.decode?_line_login key replay,
    fun command _ unmeasured => Command.decode?_line_eq_some_iff ?_⟩
  · obtain ⟨rest, -, eq, -⟩ := serves.sent
    exact ⟨rest, eq.symm⟩
  · rintro rfl goesOn later
    obtain ⟨lasts, line, there, empty⟩ := ((lasts_login c now key replay).serve goesOn).pump later
    obtain ⟨rest, line', eq, there', queued⟩ := (serves.pump later).sent
    obtain ⟨line'', there'', up⟩ := lasts.line
    obtain rfl : line' = line := Option.some.inj (there'.symm.trans there)
    obtain rfl : line'' = line' := Option.some.inj (there''.symm.trans there)
    rw [empty, if_pos up] at queued
    rw [← queued, List.append_nil] at eq
    exact eq.symm
  · rw [unmeasured]
    exact List.forall_mem_nil _

end

/-- Line breaks and quotes in a name, in a text and in a key, inside brackets. -/
theorem session_framed_sample :
    let args := Json.Value.ofList
      [("a\n", .array [.string "\"\\\n", .ofList [("b", .ofInt64 1)]]), ("c", .null)]
    let command : Command := ⟨"x\n\"y\"", args⟩
    let c : Circuit := .start .standard .public 0 [] .empty
    let uses := [Use.write 0 command, .pump 0]
    let sent := c.connection.sentSince ((c.login 0 "k" none none).serve uses).connection
    sent = [.login "k" none, command] ∧
      cutLines [] (wire sent) = (sent.map (fun command => utf8 command.line), []) ∧
      ∀ command ∈ sent, Command.decode? (utf8 command.line) = some command := by
  intro args command c uses sent
  obtain ⟨-, -, lines, login, others⟩ := session_framed c 0 "k" none none uses
  have all : sent = [.login "k" none, command] := by decide +kernel
  have inner : Json.Fits 0 ("b", .ofInt64 1) :=
    ⟨by decide, .integer (.ofInt64 1), Nat.le_refl 0, rfl⟩
  have object := Json.simple_ofList (List.forall_mem_singleton.mpr inner)
  have list : Json.Fits 2 ("a\n", .array [.string "\"\\\n", .ofList [("b", .ofInt64 1)]]) := by
    refine ⟨by decide, .array ?_, by decide +kernel, by decide +kernel⟩
    exact List.forall_mem_cons.mpr ⟨.string _, List.forall_mem_singleton.mpr object.plain⟩
  have null : Json.Fits 2 ("c", .null) := ⟨by decide, .null, Nat.zero_le 2, rfl⟩
  have simple : args.Simple 3 :=
    Json.simple_ofList (List.forall_mem_cons.mpr ⟨list, List.forall_mem_singleton.mpr null⟩)
  refine ⟨all, lines, ?_⟩
  intro sent_command mem
  have mem' := mem
  rw [all, List.mem_cons, List.mem_singleton] at mem'
  rcases mem' with rfl | rfl
  · exact login
  · have shallow := Nat.le_trans simple.depth_le (show 3 ≤ Json.roomyField by decide)
    exact (others command mem simple.floats).mpr ⟨simple.plain, shallow⟩

/-- An object with the reserved key and one before it in its text. In the order of the keys the
reserved one comes first, so the line of a command with this object is not read back. -/
theorem session_framed_unreadable :
    let args := Json.Value.ofList [("a", .ofInt64 1), (Json.reservedKey, .string "2")]
    let command : Command := ⟨"x", args⟩
    let c : Circuit := .start .standard .public 0 [] .empty
    let uses := [Use.write 0 command, .pump 0]
    let sent := c.connection.sentSince ((c.login 0 "k" none none).serve uses).connection
    args.depth ≤ 100 ∧ sent = [.login "k" none, command] ∧
      (cutLines [] (wire sent)).1 = sent.map (fun command => utf8 command.line) ∧
      Command.decode? (utf8 command.line) = none := by
  decide +kernel

end MarketStream.Link
