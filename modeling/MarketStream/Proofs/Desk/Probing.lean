import MarketStream.Desk
import MarketStream.Proofs.Registry.Requests

/-!
# What a check writes

A check queues a heartbeat on the line of every channel that has been silent for too long, if that
line is open, and changes nothing else.

* `Link.Switchboard.queuedOn` — what is queued on a line; `added` — what was queued meanwhile;
* `Aggregator.beatsOf` — what a check writes to a line for a channel; `mem_beatsOf`;
* `Aggregator.Queued` — aggregators that differ in what was queued; `queued_send`;
* `Aggregator.queued_probe` — what a check does.
-/

namespace MarketStream

namespace Link.Switchboard

variable {b b' : Switchboard} {n : Nat}

/-- What is queued on a line. -/
def queuedOn (b : Switchboard) (n : Nat) : List Command := ((b.lines[n]?).map Line.queued).getD []

/-- What stands on a line behind as many commands as there were before. -/
def added (b b' : Switchboard) (n : Nat) : List Command :=
  (b'.queuedOn n).drop (b.queuedOn n).length

theorem added_of_append {cs : List Command} (h : b'.queuedOn n = b.queuedOn n ++ cs) :
    b.added b' n = cs := by
  rw [added, h, List.drop_left]

theorem added_of_le (h : (b'.queuedOn n).length ≤ (b.queuedOn n).length) : b.added b' n = [] :=
  List.drop_eq_nil_of_le h

@[simp] theorem added_self (b : Switchboard) (n : Nat) : b.added b n = [] :=
  added_of_le (Nat.le_refl _)

theorem queuedOn_queue (b : Switchboard) (n m : Nat) (cs : List Command) :
    (b.queue n cs).queuedOn m
      = b.queuedOn m ++ if n = m ∧ b.isOpen m = true then cs else [] := by
  rw [queuedOn, queue, List.getElem?_modify, queuedOn, isOpen, open?]
  rcases b.lines[m]? with _ | line
  · simp
  · by_cases same : n = m
    · by_cases up : line.isOpen = true
      · simp [same, up, Line.queue, Option.filter]
      · simp [same, up, Line.queue, Option.filter]
    · simp [same]

/-- A line that is open after a change was open before, if changes do not open lines. -/
theorem isOpen_of_modify {f : Line → Line} {m : Nat}
    (closes : ∀ line, (f line).isOpen = true → line.isOpen = true)
    (opened : isOpen ⟨b.lines.modify m f⟩ n = true) : b.isOpen n = true := by
  rw [isOpen, open?, List.getElem?_modify] at opened
  rw [isOpen, open?]
  cases there : b.lines[n]? with
  | none => simp [there] at opened
  | some line =>
    have up : line.isOpen = true := by
      by_cases same : m = n
      · exact closes line (by simpa [there, same, Option.isSome_iff_exists] using opened)
      · simpa [there, same, Option.isSome_iff_exists] using opened
    simp [up]

/-- Nothing was queued by a change that only takes commands away. -/
theorem added_modify {f : Line → Line} (takes : ∀ line, (f line).queued.length ≤ line.queued.length)
    (b : Switchboard) (m n : Nat) : b.added ⟨b.lines.modify m f⟩ n = [] := by
  apply added_of_le
  rw [queuedOn, queuedOn, List.getElem?_modify]
  cases b.lines[n]? with
  | none => exact Nat.le_refl _
  | some line =>
    by_cases same : m = n
    · simpa [same] using takes line
    · simp [same]

/-- Nothing is queued on a new line. -/
theorem added_attach (b : Switchboard) (channel : Channel) (n : Nat) :
    b.added (b.attach channel).1 n = [] := by
  apply added_of_le
  rcases Nat.lt_trichotomy n b.lines.length with lt | rfl | gt
  · simp [queuedOn, attach, List.getElem?_append_left lt]
  · simp [queuedOn, attach]
  · have none : (b.attach channel).1.lines[n]? = none :=
      List.getElem?_eq_none (by simp only [attach, List.length_append, List.length_singleton]; omega)
    simp [queuedOn, none]

end Link.Switchboard

namespace Aggregator

variable {a : Aggregator}

/-- What a check at an instant writes to a line for one channel. -/
def beatsOf (a : Aggregator) (now n : Nat) (channel : Channel) : List Command :=
  if a.liveness.isStale channel now a.staleAfter = true ∧ a.writers.get channel = some n ∧
      a.board.isOpen n = true then
    [.heartbeat]
  else []

theorem mem_beatsOf {now n : Nat} {channel : Channel} {c : Command} :
    c ∈ a.beatsOf now n channel ↔ c = .heartbeat ∧
      a.liveness.isStale channel now a.staleAfter = true ∧ a.writers.get channel = some n ∧
      a.board.isOpen n = true := by
  rw [beatsOf]
  split <;> simp_all

/-- An aggregator differs from another one in what was queued on open lines. -/
structure Queued (a a' : Aggregator) (cs : Nat → List Command) : Prop where
  /-- Only the lines differ. -/
  rest : ∃ board, a' = { a with board }
  /-- What was queued is behind what was there. -/
  queuedOn : ∀ n, a'.board.queuedOn n = a.board.queuedOn n ++ cs n
  /-- The same lines are open. -/
  isOpen : ∀ n, a'.board.isOpen n = a.board.isOpen n
  /-- There are as many lines. -/
  length : a'.board.lines.length = a.board.lines.length

theorem Queued.refl (a : Aggregator) : Queued a a fun _ => [] :=
  ⟨⟨a.board, rfl⟩, fun _ => (List.append_nil _).symm, fun _ => rfl, rfl⟩

theorem Queued.trans {a b c : Aggregator} {cs ds : Nat → List Command} (h : Queued a b cs)
    (h' : Queued b c ds) : Queued a c fun n => cs n ++ ds n where
  rest := by
    obtain ⟨board, rfl⟩ := h.rest
    obtain ⟨board', rfl⟩ := h'.rest
    exact ⟨board', rfl⟩
  queuedOn n := by rw [h'.queuedOn, h.queuedOn, List.append_assoc]
  isOpen n := (h'.isOpen n).trans (h.isOpen n)
  length := h'.length.trans h.length

/-- What is written for a channel does not depend on what was queued. -/
theorem Queued.beatsOf {a' : Aggregator} {cs : Nat → List Command} (h : Queued a a' cs)
    (now n : Nat) (channel : Channel) : a'.beatsOf now n channel = a.beatsOf now n channel := by
  have isOpen := h.isOpen n
  obtain ⟨board, rfl⟩ := h.rest
  simp only [Aggregator.beatsOf, isOpen]
  rfl

/-- What is sent on a channel is queued on its line, if that is open. -/
theorem queued_send (a : Aggregator) (channel : Channel) (cs : List Command) :
    Queued a (a.send channel cs) fun n =>
      if a.writers.get channel = some n ∧ a.board.isOpen n = true then cs else [] := by
  cases writer : a.writers.get channel with
  | none =>
    have same : a.send channel cs = a := by
      rw [send, writer]
      rfl
    rw [same]
    simpa using Queued.refl a
  | some m =>
    have same : a.send channel cs = { a with board := a.board.queue m cs } := by
      rw [send, writer]
      rfl
    rw [same]
    refine ⟨⟨_, rfl⟩, ?_, ?_, ?_⟩
    · intro n
      simp [Link.Switchboard.queuedOn_queue]
    · intro n
      exact Link.Switchboard.isOpen_queue ..
    · exact Link.Switchboard.length_queue ..

/-- A channel is probed. -/
theorem queued_probeChannel (a : Aggregator) (now : Nat) (channel : Channel) :
    Queued a (a.probeChannel now channel).1 fun n => a.beatsOf now n channel := by
  by_cases stale : a.liveness.isStale channel now a.staleAfter = true
  · have sent : (a.probeChannel now channel).1 = a.send channel [.heartbeat] := by
      rw [probeChannel, if_pos stale, write_eq]
      by_cases up : a.isConnected channel = true
      · rw [if_pos up]
      · rw [if_neg up, send_of_down (eq_false_of_ne_true up)]
    rw [sent]
    simpa [beatsOf, stale] using a.queued_send channel [.heartbeat]
  · rw [probeChannel, if_neg stale]
    simpa [beatsOf, stale] using Queued.refl a

/-- **A check writes to the lines of silent channels, and does nothing else.** -/
theorem queued_probe (a : Aggregator) (now : Nat) :
    Queued a (a.probe now).1 fun n => Channel.all.flatMap (a.beatsOf now n) := by
  have first := a.queued_probeChannel now .private
  have second := (a.probeChannel now .private).1.queued_probeChannel now .public
  have both : (a.probe now).1 = ((a.probeChannel now .private).1.probeChannel now .public).1 := by
    simp only [probe, Channel.all, List.foldl_cons, List.foldl_nil]
    rcases a.probeChannel now .private with ⟨b, _ | _⟩
    all_goals
      dsimp only
      rcases b.probeChannel now .public with ⟨c, _ | _⟩ <;> rfl
  rw [both]
  simpa [Channel.all, first.beatsOf] using first.trans second

end Aggregator

end MarketStream
