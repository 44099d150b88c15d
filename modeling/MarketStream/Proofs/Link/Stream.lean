import MarketStream.Proofs.Json.Spacing
import MarketStream.Proofs.Link.Moves
import MarketStream.Proofs.Link.Report

/-!
# Frames of a stream

What arrives on a link is a stream of bytes that comes in reads, and no read need end where a line
does. The listener is told of the same frames however the stream is cut: those in its lines that are
not blank, up to the first line that is none.

* `linesOf`, `Reads` — the lines of a stream, and what is read from lines;
* `cutOnto_split` — what has come in is cut, and the part that is left goes on with what comes;
* `framesOf_append`, `reads_framesOf` — the frames of lines;
* `playItems_finish` — reads and waits up to the end of the stream; `Attempt.Streams` — an attempt;
* `Circuit.calls_journal` — the listener is told of the events that have happened, and of no others;
* `stream_read_by_lines` — so it is told of the frames of a stream.
-/

namespace MarketStream.Link

/-! ## Streams -/

/-- The lines of a stream that are not blank, without their ends. The last one need not have one. -/
def linesOf (stream : Bytes) : List Bytes :=
  (stream.splitOn newline).filter fun line => !line.all isBlankByte

/-- The frames that are read from lines, and what ends the reading: the end of the stream, or the
first line that is no frame. -/
inductive Reads : List Bytes → List Frame → Fault → Prop where
  | closed : Reads [] [] .streamClosed
  | frame {line : Bytes} {lines : List Bytes} {f : Frame} {frames : List Frame} {fault : Fault}
      (parses : Frame.parse line = .ok f) (others : Reads lines frames fault) :
    Reads (line :: lines) (f :: frames) fault
  | bad {line : Bytes} {lines : List Bytes} {reason : Fault}
      (refused : Frame.parse line = .error reason) :
    Reads (line :: lines) [] .badFrame

/-- What is read from lines is determined. -/
theorem Reads.unique {lines : List Bytes} {frames frames' : List Frame} {fault fault' : Fault}
    (h : Reads lines frames fault) (h' : Reads lines frames' fault') :
    frames = frames' ∧ fault = fault' := by
  induction h generalizing frames' with
  | closed =>
    cases h'
    exact ⟨rfl, rfl⟩
  | frame parses _ ih =>
    cases h' with
    | frame parses' others =>
      obtain ⟨rfl, rfl⟩ := ih others
      rw [parses] at parses'
      cases parses'
      exact ⟨rfl, rfl⟩
    | bad refused =>
      rw [parses] at refused
      cases refused
  | bad refused =>
    cases h' with
    | frame parses _ =>
      rw [refused] at parses
      cases parses
    | bad _ => exact ⟨rfl, rfl⟩

/-! ## Cutting -/

/-- Bytes that have come in are cut into lines, and the part of a line that is left goes on with
what is still to come. -/
theorem cutOnto_split {part : Bytes} (inside : newline ∉ part) (lines : List Bytes)
    (bytes : Bytes) :
    ∃ (cut : List Bytes) (left : Bytes), newline ∉ left ∧
      cutOnto part lines bytes = (lines.reverse ++ cut.map (· ++ [newline]), left) ∧
      ∀ more, (part.reverse ++ (bytes ++ more)).splitOn newline
        = cut ++ (left ++ more).splitOn newline := by
  induction bytes generalizing part lines with
  | nil => exact ⟨[], part.reverse, by simpa using inside, by simp [cutOnto], fun more => rfl⟩
  | cons b bytes ih =>
    rw [cutOnto]
    by_cases ends : b = newline
    · subst ends
      have fresh : newline ∉ ([] : Bytes) := List.not_mem_nil
      obtain ⟨cut, left, open_, eq, split⟩ := ih fresh ((newline :: part).reverse :: lines)
      refine ⟨part.reverse :: cut, left, open_, ?_, fun more => ?_⟩
      · rw [if_pos rfl, eq, List.reverse_cons, List.reverse_cons, List.map_cons,
          List.append_assoc]
        rfl
      · rw [List.cons_append, List.splitOn_append_cons_self_of_not_mem (by simpa using inside),
          List.cons_append]
        exact congrArg _ (split more)
    · have inside' : newline ∉ b :: part := 
        List.not_mem_cons_of_ne_of_not_mem (Ne.symm ends) inside
      obtain ⟨cut, left, open_, eq, split⟩ := ih inside' lines
      refine ⟨cut, left, open_, by rw [if_neg ends, eq], fun more => ?_⟩
      rw [← split more, List.reverse_cons, List.append_assoc]
      rfl

/-! ## Frames of lines -/

theorem parse_append_newline (line : Bytes) :
    Frame.parse (line ++ [newline]) = Frame.parse line := by
  rw [Frame.parse, Frame.parse]
  exact congrArg (fun input => readOr (input.bind Frame.read?)) (Json.document?_append_newline line)

/-- The end of a line adds nothing to what it means. -/
theorem ofLine_append_newline (line : Bytes) :
    LineResult.ofLine (line ++ [newline]) = LineResult.ofLine line := by
  have blank : (line ++ [newline]).all isBlankByte = line.all isBlankByte := by
    rw [List.all_append]
    exact Bool.and_true _
  rw [LineResult.ofLine, LineResult.ofLine, blank, parse_append_newline]

theorem framesOf_map_newline (lines : List Bytes) :
    framesOf (lines.map (· ++ [newline])) = framesOf lines := by
  induction lines with
  | nil => rfl
  | cons line rest ih => rw [List.map_cons, framesOf, framesOf, ofLine_append_newline, ih]

/-- Lines that come after others are read unless one of these is no frame. -/
theorem framesOf_append (lines more : List Bytes) :
    framesOf (lines ++ more) = if (framesOf lines).2 then framesOf lines
      else ((framesOf lines).1 ++ (framesOf more).1, (framesOf more).2) := by
  induction lines with
  | nil => rfl
  | cons line rest ih =>
    rw [List.cons_append, framesOf, framesOf]
    cases LineResult.ofLine line with
    | blank => exact ih
    | frame f =>
      simp only [ih]
      split <;> rfl
    | bad => rfl

/-- What ends a stream, by whether one of its lines is no frame. -/
def endOf (bad : Bool) : Fault := if bad then .badFrame else .streamClosed

theorem reads_framesOf (lines : List Bytes) :
    Reads (lines.filter fun line => !line.all isBlankByte) (framesOf lines).1
      (endOf (framesOf lines).2) := by
  induction lines with
  | nil => exact .closed
  | cons line rest ih =>
    rw [framesOf, LineResult.ofLine]
    by_cases blank : line.all isBlankByte = true
    · rw [if_pos blank, List.filter_cons_of_neg (by simpa using blank)]
      exact ih
    · rw [if_neg blank, List.filter_cons_of_pos (by simpa using blank)]
      cases parsed : Frame.parse line with
      | ok f => exact .frame parsed ih
      | error reason => exact .bad parsed

/-! ## An open link -/

/-- The bytes that the peer sends. -/
def bytesOf (items : List Attempt.Item) : Bytes :=
  items.flatMap fun
    | .send bytes => bytes
    | .wait _ | .finish | .breakOff _ => []

theorem calls_append (sights more : List Sight) :
    calls (sights ++ more) = calls sights ++ calls more := List.filterMap_append

theorem calls_arrivals (now : Nat) (frames : List Frame) :
    calls (trace (arrivals now frames)) = frames.map .message := by
  induction frames with
  | nil => rfl
  | cons f rest ih => exact congrArg (Call.message f :: ·) ih

/-- The listener is told of the frames in what is left of a line and what is sent after it, up to
the first line that is no frame, whatever the reads and the waits between them. By induction on the
items; the part of a line that is left has no end of a line in it. -/
theorem playItems_finish {reads : List Attempt.Item} (goesOn : ∀ item ∈ reads, item.isEnd = false)
    (rest : List Attempt.Item) (now : Nat) {part : Bytes} (inside : newline ∉ part) :
    ∃ events endedAt, let read := framesOf ((part ++ bytesOf reads).splitOn newline)
      playItems now ⟨part⟩ (reads ++ .finish :: rest) = (events, some (endedAt, endOf read.2)) ∧
        calls (trace events) = read.1.map .message := by
  induction reads generalizing now part with
  | nil =>
    have alone : (part ++ bytesOf []).splitOn newline = [part] := by
      rw [bytesOf, List.flatMap_nil, List.append_nil, List.splitOn_eq_singleton inside]
    rw [alone]
    exact ⟨_, now, rfl, calls_arrivals now _⟩
  | cons item reads ih =>
    obtain ⟨first, others⟩ := List.forall_mem_cons.mp goesOn
    cases item with
    | send bytes =>
      have inside' : newline ∉ part.reverse := by simpa using inside
      obtain ⟨cut, left, open_, eq, split⟩ := cutOnto_split inside' [] bytes
      rw [List.reverse_reverse] at split
      have fed : Inbound.feed ⟨part⟩ bytes = (⟨left⟩, framesOf cut) := by
        rw [Inbound.feed, cutLines, eq]
        exact congrArg (Inbound.mk left, ·) (framesOf_map_newline cut)
      have whole : (part ++ bytesOf (.send bytes :: reads)).splitOn newline
          = cut ++ (left ++ bytesOf reads).splitOn newline := split (bytesOf reads)
      obtain ⟨events, endedAt, played, told⟩ := ih others now open_
      rw [whole, framesOf_append, List.cons_append]
      generalize framesOf cut = read at fed ⊢
      obtain ⟨frames, bad⟩ := read
      cases bad with
      | true =>
        rw [if_pos rfl]
        exact ⟨arrivals now frames, now, by rw [playItems, fed]; rfl, calls_arrivals now frames⟩
      | false =>
        rw [if_neg Bool.false_ne_true]
        refine ⟨arrivals now frames ++ events, endedAt, ?_, ?_⟩
        · rw [playItems, fed]
          exact congrArg (fun p => (arrivals now frames ++ p.1, p.2)) played
        · rw [trace_append, calls_append, calls_arrivals, told, ← List.map_append]
    | wait ms =>
      obtain ⟨events, endedAt, played, told⟩ := ih others (pause now ms).1 inside
      refine ⟨(pause now ms).2 ++ events, endedAt, ?_, ?_⟩
      · exact congrArg (fun p => ((pause now ms).2 ++ p.1, p.2)) played
      · rw [trace_append, trace_pause]
        exact told
    | finish | breakOff _ => cases first

/-! ## An attempt -/

/-- An attempt that opens a session, on which the peer sends bytes and ends the stream. -/
structure Attempt.Streams (a : Attempt) (stream : Bytes) : Prop where
  /-- There is a session. -/
  session : a.sessionFault = none
  /-- It can be dialled. -/
  reached : a.dialFault = none
  /-- The login can be written. -/
  writes : failsAt a.failingWrite 1 = false
  /-- Before it ends the stream, the peer sends the bytes in any number of reads. -/
  peer : ∃ reads rest, a.items = reads ++ .finish :: rest ∧
    (∀ item ∈ reads, item.isEnd = false) ∧ bytesOf reads = stream

/-- What the listener is told of a stream. -/
def toldOf (frames : List Frame) (fault : Fault) : List Call :=
  .connected :: frames.map .message ++ [.failed fault]

/-- From dialling on, whatever reads the stream comes in. -/
theorem Attempt.Streams.playDial {a : Attempt} {stream : Bytes} (h : a.Streams stream) (now : Nat)
    (replay : Option LoginReplay) (address : String) :
    ∃ events endedAt, let read := framesOf (stream.splitOn newline)
      a.playDial now replay address = (events, some (endedAt, endOf read.2)) ∧
        calls (trace events) = .connected :: read.1.map .message := by
  obtain ⟨reads, rest, items, goesOn, rfl⟩ := h.peer
  have fresh : newline ∉ ([] : Bytes) := List.not_mem_nil
  obtain ⟨events, endedAt, played, told⟩ :=
    playItems_finish goesOn rest (pause now a.dialWait).1 fresh
  refine ⟨(now, .dialled address) :: (pause now a.dialWait).2 ++
    ((pause now a.dialWait).1, .opened (.login a.key replay) a.failingWrite) :: events, endedAt,
    ?_, ?_⟩
  · unfold Attempt.playDial
    rw [h.reached, h.writes, items]
    exact congrArg (fun p => ((now, .dialled address) :: (pause now a.dialWait).2 ++
      ((pause now a.dialWait).1, .opened (.login a.key replay) a.failingWrite) :: p.1, p.2)) played
  · rw [trace_append, trace_cons, trace_pause, trace_cons]
    exact congrArg (Call.connected :: ·) told

/-- A whole attempt, whatever reads the stream comes in. -/
theorem Attempt.Streams.play {a : Attempt} {stream : Bytes} (h : a.Streams stream)
    (now number : Nat) (replay : Option LoginReplay) (address : String) :
    ∃ events endedAt, let read := framesOf (stream.splitOn newline)
      a.play now number replay address = (events, some (endedAt, endOf read.2)) ∧
        calls (trace events) = .connected :: read.1.map .message := by
  obtain ⟨events, endedAt, dialled, told⟩ :=
    h.playDial (pause now a.sessionWait).1 replay address
  refine ⟨(now, .asked number) :: (pause now a.sessionWait).2 ++ events, endedAt, ?_, ?_⟩
  · unfold Attempt.play
    rw [h.session]
    exact congrArg (fun p => ((now, .asked number) :: (pause now a.sessionWait).2 ++ p.1, p.2))
      dialled
  · rw [trace_append, trace_cons, trace_pause]
    exact told

/-- What a timeline tells that begins with such an attempt. -/
theorem Attempt.Streams.toldOf_prefix {a : Attempt} {stream : Bytes} (h : a.Streams stream)
    (channel : Channel) (replay : Option LoginReplay) (start number : Nat) (backoff : Backoff)
    (later : List Attempt) :
    let read := framesOf (stream.splitOn newline)
    toldOf read.1 (endOf read.2)
      <+: calls (trace (timelineFrom channel replay start number backoff (a :: later))) := by
  intro read
  obtain ⟨events, endedAt, played, told⟩ :=
    h.play start number replay (addressOf channel number)
  rw [timelineFrom, played, trace_append, trace_cons, calls_append, calls_append, told,
    ← List.append_assoc]
  exact List.prefix_append _ _

/-! ## A run -/

theorem Circuit.newsSince_next (c : Circuit) :
    c.connection.newsSince c.next.connection = trace (c.connection.ahead.take 1) := by
  unfold Circuit.next
  split
  next none => rw [none, Connection.newsSince_of_eq rfl rfl, List.take_nil, trace_nil]
  next now e rest ahead =>
    rw [ahead, List.take_succ_cons, List.take_zero, trace_cons, trace_nil, List.append_nil]
    -- popping an event leaves the past, so the news are those of the event alone
    exact Connection.newsSince_undergo { c.connection with ahead := rest } c.board now e

/-- The listener is told of the event that a move lets happen, and of nothing else. -/
theorem Circuit.calls_act (c : Circuit) {m : Move} (h : m ≠ .close) :
    calls (c.connection.newsSince (c.act m).connection)
      = calls (trace (c.connection.ahead.take (if m = .next then 1 else 0))) := by
  cases m with
  | next => exact congrArg calls c.newsSince_next
  | pump now =>
    obtain ⟨lines, -, news⟩ := c.connection.newsSince_flush c.board now
    have silent : calls (lines.map (.line now)) = [] := by
      rw [calls, List.filterMap_map]
      exact List.filterMap_eq_nil_iff.mpr fun _ _ => rfl
    exact (congrArg calls news).trans silent
  | rewire board =>
    have news : c.connection.newsSince (c.act (.rewire board)).connection = [] :=
      Connection.newsSince_of_eq rfl rfl
    exact congrArg calls news
  | close => exact absurd rfl h

/-- **Told is what has happened.** While moves are made, the listener is told of the events that
happen, in their order; unless the link is closed, one happens for each move that lets one. -/
theorem Circuit.calls_journal (c : Circuit) (moves : List Move) :
    ∃ n, calls (c.journal moves) = calls (trace (c.connection.ahead.take n)) ∧
      (.close ∉ moves → n = moves.count .next) := by
  induction moves generalizing c with
  | nil => exact ⟨0, rfl, fun _ => rfl⟩
  | cons m moves ih =>
    obtain ⟨n, told, counted⟩ := ih (c.act m)
    by_cases close : m = .close
    · subst close
      have silent : c.connection.newsSince (c.act .close).connection = [] :=
        Connection.newsSince_of_eq rfl rfl
      have nothing : (c.act .close).connection.ahead = [] := rfl
      rw [nothing, List.take_nil] at told
      refine ⟨0, ?_, fun open_ => absurd List.mem_cons_self open_⟩
      rw [journal, calls_append, silent, told, List.take_zero]
      rfl
    · refine ⟨(if m = .next then 1 else 0) + n, ?_, fun open_ => ?_⟩
      · rw [journal, calls_append, c.calls_act close, told, (c.act_ahead close).1, List.take_add,
          trace_append, calls_append]
      · rw [counted (List.not_mem_of_not_mem_cons open_), List.count_cons, Nat.add_comm]
        simp only [beq_iff_eq]

/-- **A stream is read line by line.** Let an attempt be ahead of a link on which the login can be
written and the peer then sends a stream of bytes, in any number of reads and with any waits between
them, and ends it. Whatever is done with the link meanwhile, the listener is told that the session
is open, of the frames in the lines of the stream that are not blank, in their order and up to the
first line that is none (`Reads`), and then that the attempt has failed, for there is such a line or
the stream is closed. It is told of all that if the link is not closed and its events happen. -/
theorem stream_read_by_lines {c : Circuit} {channel : Channel} {replay : Option LoginReplay}
    {start number : Nat} {backoff : Backoff} {a : Attempt} {later : List Attempt} {stream : Bytes}
    (streams : a.Streams stream)
    (ahead : c.connection.ahead = timelineFrom channel replay start number backoff (a :: later)) :
    ∃ frames fault, Reads (linesOf stream) frames fault ∧ ∀ moves,
      (calls (c.journal moves) <+: toldOf frames fault ∨
        toldOf frames fault <+: calls (c.journal moves)) ∧
      (.close ∉ moves → c.connection.ahead.length ≤ moves.count .next →
        toldOf frames fault <+: calls (c.journal moves)) := by
  refine ⟨_, _, reads_framesOf (stream.splitOn newline), fun moves => ?_⟩
  have told := streams.toldOf_prefix channel replay start number backoff later
  rw [← ahead] at told
  obtain ⟨n, happened, counted⟩ := c.calls_journal moves
  rw [happened]
  refine ⟨?_, fun open_ enough => ?_⟩
  · have part : calls (trace (c.connection.ahead.take n)) <+: calls (trace c.connection.ahead) := by
      have split := congrArg (fun t => calls (trace t)) (List.take_append_drop n c.connection.ahead)
      rw [trace_append, calls_append] at split
      exact ⟨_, split⟩
    exact List.prefix_or_prefix_of_prefix part told
  · rw [List.take_of_length_le (counted open_ ▸ enough)]
    exact told

/-- Reads that end inside lines, with a blank line and a line that is no frame: the frame after the
latter, which is not ended, does not arrive. -/
theorem stream_read_by_lines_sample :
    let reads : List Attempt.Item := [.send (textBytes "[\"tra"), .wait 5,
      .send (textBytes "de\"]\n \r\n[\"pri"), .send (textBytes "ce\"]\n\x7b\n[\"order\"]")]
    let attempt : Attempt := { items := reads ++ [.finish] }
    let link := Circuit.start .standard .public 0 [attempt] .empty
    let moves := List.replicate 4 .next ++ [.pump 0] ++ List.replicate 4 .next
    attempt.Streams (bytesOf reads) ∧
      toldOf [⟨"trade", "null", 0⟩, ⟨"price", "null", 0⟩] .badFrame
        <+: calls (link.journal moves) := by
  intro reads attempt link moves
  have streams : attempt.Streams (bytesOf reads) :=
    ⟨rfl, rfl, rfl, reads, [], rfl, by decide, rfl⟩
  have ahead : link.connection.ahead = timelineFrom .public (Settings.standard.loginReplay .public)
      0 1 (.ofSettings Settings.standard.reconnect) [attempt] := rfl
  obtain ⟨frames, fault, read, told⟩ := stream_read_by_lines streams ahead
  have lines : linesOf (bytesOf reads) = [textBytes "[\"trade\"]", textBytes "[\"price\"]",
      textBytes "\x7b", textBytes "[\"order\"]"] := by decide +kernel
  have refused : Frame.parse (textBytes "\x7b") = .error .unreadable := by decide +kernel
  have expected : Reads (linesOf (bytesOf reads))
      [⟨"trade", "null", 0⟩, ⟨"price", "null", 0⟩] .badFrame :=
    lines ▸ .frame (by decide +kernel) (.frame (by decide +kernel) (.bad refused))
  obtain ⟨rfl, rfl⟩ := read.unique expected
  exact ⟨streams, (told moves).2 (by decide) (by decide +kernel)⟩

end MarketStream.Link
