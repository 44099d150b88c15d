import MarketStream.Proofs.Link.Moves
import MarketStream.Proofs.Link.Report

/-!
# Runs of a link

Whatever the order of the moves, what can be seen of a link keeps to the rules, and only closing it
ends it as long as the clock can show the end of a window.

* `Circuit.Stands` — the invariant; `Circuit.Stands.act` — what one move keeps of it;
* `Circuit.Stands.run` — so what is seen during a run is a course;
* `link_keeps_its_course` — what a run from the start can be.
-/

namespace MarketStream.Link

variable {channel : Channel} {replay : Option LoginReplay} {s t : Stage}

/-- Lines are written on an open link only. -/
theorem lines_course (turn : Turn) (now : Nat) (lines : List Command) :
    Course channel replay (.talking turn) (lines.map (.line now)) (.talking turn) := by
  induction lines with
  | nil => exact .nil
  | cons command lines ih => exact .cons .write ih

/-- Where the way out leads after an event, if there is one. -/
theorem talking_of_undergo {c : Connection} {board : Switchboard} {now : Nat} {e : Event}
    (outlet : c.outlet.isSome → ∃ turn, s = .talking turn)
    (course : Course channel replay s (Sight.ofEvent now e) t)
    (h : (c.undergo board now e).1.outlet.isSome) : ∃ turn, t = .talking turn := by
  cases e with
  | opened login failingWrite =>
    cases course with
    | cons first rest =>
      cases first
      cases rest with
      | cons second rest =>
        cases second
        cases rest
        exact ⟨_, rfl⟩
  | failed fault => cases h
  | woken => exact course.eq_of_nil ▸ outlet h
  | received frame =>
    cases course with
    | cons first rest =>
      cases first
      cases rest
      exact ⟨_, rfl⟩
  | asked _ | dialled _ =>
    obtain ⟨turn, rfl⟩ := outlet h
    cases course with
    | cons first rest => cases first

namespace Circuit

/-- A link stands at a stage: what is ahead of it leads on from there by the rules, and leaves
nothing of the attempts unless the link was closed; there is a way out only while it is open. -/
structure Stands (channel : Channel) (replay : Option LoginReplay) (s : Stage) (c : Circuit) :
    Prop where
  ahead : ∃ last, Course channel replay s (trace c.connection.ahead) last ∧
    (c.connection.isClosed = false → last.IsLast)
  outlet : c.connection.outlet.isSome → ∃ turn, s = .talking turn

namespace Stands

variable {c : Circuit}

/-- A link that is connected is open. -/
theorem hasSession (h : Stands channel replay s c) (connected : c.isConnected) :
    s.hasSession := by
  have out : c.connection.outlet.isSome := by
    cases none : c.connection.outlet with
    | none => simp [isConnected, Connection.isConnected, Connection.writer?, none] at connected
    | some o => rfl
  obtain ⟨turn, rfl⟩ := h.outlet out
  rfl

/-- The next event is one that the rules allow. -/
theorem next (h : Stands channel replay s c) :
    ∃ t, Course channel replay s (c.connection.newsSince c.next.connection) t ∧
      Stands channel replay t c.next := by
  obtain ⟨last, course, isLast⟩ := h.ahead
  unfold Circuit.next
  split
  · have silent : c.connection.newsSince c.connection = [] := Connection.newsSince_of_eq rfl rfl
    exact ⟨s, silent ▸ .nil, h⟩
  next now e rest ahead =>
    rw [ahead, trace_cons] at course
    obtain ⟨t, event, rest'⟩ := course.of_append
    -- popping an event leaves the past, so the news are those of the event alone
    generalize popped : ({ c.connection with ahead := rest } : Connection) = c'
    have news : c.connection.newsSince (c'.undergo c.board now e).1 = Sight.ofEvent now e := by
      rw [← c'.newsSince_undergo c.board now e, ← popped]
      rfl
    refine ⟨t, ?_, ?_, ?_⟩
    · exact news ▸ event
    · refine ⟨last, ?_, ?_⟩
      · rw [ofPair, c'.undergo_ahead, ← popped]
        exact rest'
      · rw [ofPair, c'.undergo_isClosed, ← popped]
        exact isLast
    · have outlet : c'.outlet.isSome → ∃ turn, s = .talking turn := popped ▸ h.outlet
      exact talking_of_undergo outlet event

/-- Writing what is queued is allowed. -/
theorem pump (h : Stands channel replay s c) (now : Nat) :
    ∃ t, Course channel replay s (c.connection.newsSince (c.act (.pump now)).connection) t ∧
      Stands channel replay t (c.act (.pump now)) := by
  obtain ⟨lines, silent, news⟩ := c.connection.newsSince_flush c.board now
  refine ⟨s, ?_, ?_, ?_⟩
  · refine news ▸ ?_
    cases out : c.connection.outlet with
    | none => exact silent out ▸ .nil
    | some o =>
      obtain ⟨turn, rfl⟩ := h.outlet (out ▸ rfl)
      exact lines_course turn now lines
  · rw [Circuit.act, ofPair, c.connection.flush_ahead, c.connection.flush_isClosed]
    exact h.ahead
  · rw [Circuit.act, ofPair, c.connection.flush_outlet]
    exact h.outlet

/-- **One move.** What is seen of a link during a move is allowed by the rules. -/
theorem act (h : Stands channel replay s c) (m : Move) :
    ∃ t, Course channel replay s (c.connection.newsSince (c.act m).connection) t ∧
      Stands channel replay t (c.act m) := by
  cases m with
  | next => exact h.next
  | pump now => exact h.pump now
  | rewire board =>
    have silent : c.connection.newsSince (c.act (.rewire board)).connection = [] :=
      Connection.newsSince_of_eq rfl rfl
    exact ⟨s, silent ▸ .nil, h.ahead, h.outlet⟩
  | close =>
    have silent : c.connection.newsSince (c.act .close).connection = [] :=
      Connection.newsSince_of_eq rfl rfl
    exact ⟨s, silent ▸ .nil, ⟨s, .nil, nofun⟩, nofun⟩

/-- **A run.** What is seen of a link during moves is a course. -/
theorem run (h : Stands channel replay s c) (moves : List Move) :
    ∃ t, Course channel replay s (c.journal moves) t ∧ Stands channel replay t (c.run moves) := by
  induction moves generalizing s c with
  | nil => exact ⟨s, .nil, h⟩
  | cons m moves ih =>
    obtain ⟨t, first, stands⟩ := h.act m
    obtain ⟨u, rest, stands⟩ := ih stands
    exact ⟨u, first.append rest, stands⟩

end Stands

/-- A link that is started stands before its first attempt. -/
theorem stands_start (settings : Settings) (channel : Channel) (now : Nat)
    (attempts : List Attempt) (board : Switchboard) :
    Stands channel (settings.loginReplay channel)
      (.resting now 1 (.ofSettings settings.reconnect) attempts)
      (start settings channel now attempts board) := by
  have laidOut : ∃ last, Course channel (settings.loginReplay channel)
      (.resting now 1 (.ofSettings settings.reconnect) attempts)
      (trace (timeline settings channel now attempts)) last ∧ last.IsLast :=
    timelineFrom_course now 1 (.ofSettings settings.reconnect) attempts
  obtain ⟨last, course, isLast⟩ := laidOut
  exact ⟨⟨last, course, fun _ => isLast⟩, nofun⟩

end Circuit

/-- **What a link does.** Let a link be started with any attempts ahead of it, and let its events,
its writing, other uses of the switchboard and its closing come in any order. What can be seen of it
keeps to the rules: each attempt asks for its session once, the login is the first line of an open
link, and the next attempt begins after the delay that the table gives for the failure. The listener
is told of each failed attempt in one block, and of the attempt under way in one that is cut short;
the link is connected only if the latter has begun. As long as the clock can show the ends of all
windows, nothing but closing ends the link: every attempt is made. -/
theorem link_keeps_its_course (settings : Settings) (channel : Channel) (now : Nat)
    (attempts : List Attempt) (board : Switchboard) (moves : List Move) :
    let link := Circuit.start settings channel now attempts board
    let journal := link.journal moves
    (∃ stage, Course channel (settings.loginReplay channel)
      (.resting now 1 (.ofSettings settings.reconnect) attempts) journal stage) ∧
    ∃ (blocks : List (List Call)) (latest : List Call), calls journal = blocks.flatten ++ latest ∧
      (∀ block ∈ blocks, IsWhole block) ∧ IsCutShort latest ∧
      ((link.run moves).isConnected → latest ≠ []) ∧
      (.close ∉ moves → (∀ a ∈ attempts, a.Ends) →
        (∀ failedAt fault, .event failedAt (.failed fault) ∈ journal →
          failedAt / 1000 + settings.reconnect.windowSecs.toNat < Backoff.clockLimit) →
        (timeline settings channel now attempts).length ≤ moves.count .next →
        blocks.length = attempts.length ∧ latest = []) := by
  intro link journal
  obtain ⟨stage, course, stands⟩ :=
    (Circuit.stands_start settings channel now attempts board).run moves
  obtain ⟨blocks, latest, report⟩ := course.report rfl
  refine ⟨⟨stage, course⟩, blocks, latest, report.told_eq, report.whole, report.cut, ?_, ?_⟩
  · exact fun connected => report.session.2 (stands.hasSession connected)
  · intro open_ ends shown enough
    obtain ⟨ahead, closed⟩ := link.run_ahead open_
    have nothingAhead : (link.run moves).connection.ahead = [] :=
      ahead.trans (List.drop_eq_nil_of_le enough)
    have isLast : stage.IsLast := by
      obtain ⟨last, rest, isLast⟩ := stands.ahead
      rw [nothingAhead] at rest
      exact rest.eq_of_nil ▸ isLast closed
    have goesOn : stage.isStalled = false := by
      by_contra stalled
      obtain ⟨failedAt, fault, mem, late⟩ := course.clockLimit_le rfl (by simpa using stalled)
      exact Nat.not_lt.2 late (shown failedAt fault mem)
    have made : stage.attempts = [] :=
      isLast.attempts_eq_nil (fun a mem => ends a (course.attempts_suffix.mem mem)) goesOn
    have counted : attempts.length = blocks.length + stage.attempts.length := report.attempts
    refine ⟨?_, report.latest_eq_nil (Stage.hasSession_of_attempts_eq_nil made)⟩
    simp [counted, made]

/-- A denied session, a login that cannot be written, and an open link on which a frame arrives and
a command is written: three attempts, the last one after a delay of five seconds. -/
theorem link_keeps_its_course_sample :
    let attempts : List Attempt := [{ sessionFault := some (.session ["denied"]) },
      { failingWrite := some 1 },
      { items := [.send (textBytes "[\"trade\"]\n"), .finish] }]
    let board : Switchboard := ⟨[⟨.public, true, [.heartbeat]⟩]⟩
    let link := Circuit.start .standard .public 0 attempts .empty
    let moves := List.replicate 9 .next ++ [.rewire board, .pump 5000, .next, .next, .next]
    let journal : List Sight := [.event 0 (.asked 1), .event 0 (.failed (.session ["denied"])),
      .event 0 (.asked 2), .event 0 (.dialled "public-2"), .event 0 (.failed writeFault),
      .event 5000 (.asked 3), .event 5000 (.dialled "public-3"),
      .event 5000 (.opened (.login "key" none) none), .line 5000 (.login "key" none),
      .line 5000 .heartbeat, .event 5000 (.received ⟨"trade", "null", 0⟩),
      .event 5000 (.failed .streamClosed)]
    link.journal moves = journal ∧
      ∃ blocks : List (List Call), calls journal = blocks.flatten ∧ blocks.length = 3 := by
  intro attempts board link moves journal
  have seen : link.journal moves = journal := by decide +kernel
  obtain ⟨-, blocks, latest, told, -, -, -, goesOn⟩ :=
    link_keeps_its_course .standard .public 0 attempts .empty moves
  have ends : ∀ a ∈ attempts, a.Ends := by simp [attempts, Attempt.Ends, failsAt, Attempt.Item.isEnd]
  have shown : ∀ failedAt fault, .event failedAt (.failed fault) ∈ journal →
      failedAt / 1000 + Settings.standard.reconnect.windowSecs.toNat < Backoff.clockLimit := by
    intro failedAt fault mem
    have soon : failedAt ≤ 5000 := by
      simp only [journal, List.mem_cons, Sight.event.injEq] at mem
      grind
    have window : Settings.standard.reconnect.windowSecs.toNat = 60 := by decide
    have limit : 65 < Backoff.clockLimit := by decide
    omega
  obtain ⟨made, rfl⟩ := goesOn (by decide) ends (seen ▸ shown) (by decide +kernel)
  exact ⟨seen, blocks, by rw [← seen, told, List.append_nil], made⟩

/-- Settings under which the clock cannot show the end of a window are not refused, and end a link
at its first failure: the second of two attempts is never made, though nobody closed the link. -/
theorem overlong_window_ends_link :
    let settings : Settings :=
      { reconnect := { windowSecs := 0xffffffffffffffff, delaysMs := [10] } }
    let attempts : List Attempt :=
      [{ sessionFault := some (.session ["a"]) }, { sessionFault := some (.session ["b"]) }]
    let link := Circuit.start settings .public 0 attempts .empty
    let moves := List.replicate 4 .next
    settings.validate = .ok settings ∧ (∀ a ∈ attempts, a.Ends) ∧
      (timeline settings .public 0 attempts).length ≤ moves.count .next ∧
      link.journal moves = [.event 0 (.asked 1), .event 0 (.failed (.session ["a"]))] ∧
      (link.run moves).connection.ahead = [] ∧ (link.run moves).connection.isClosed = false ∧
      ¬∃ blocks : List (List Call), calls (link.journal moves) = blocks.flatten ∧
        (∀ block ∈ blocks, IsWhole block) ∧ blocks.length = attempts.length := by
  intro settings attempts link moves
  have seen : link.journal moves = [.event 0 (.asked 1), .event 0 (.failed (.session ["a"]))] := by
    decide +kernel
  refine ⟨by decide, by simp [attempts, Attempt.Ends], by decide +kernel, seen, by decide +kernel,
    by decide +kernel, ?_⟩
  rintro ⟨blocks, told, whole, made⟩
  rw [seen, show calls _ = [.failed (.session ["a"])] from rfl] at told
  have filled : ∀ block, IsWhole block → 0 < block.length := by
    rintro _ ⟨fault, rfl | ⟨frames, rfl⟩⟩ <;> simp
  match blocks, made with
  | [first, second], _ =>
    have one : 1 = first.length + second.length := by simpa using congrArg List.length told
    have := filled first (whole first (by simp))
    have := filled second (whole second (by simp))
    omega

end MarketStream.Link
