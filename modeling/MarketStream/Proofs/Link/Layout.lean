import MarketStream.Proofs.Link.Course

/-!
# A timeline keeps to the rules

What a timeline lays out ahead of a link, with each login written as its session opens, is a course
of the link.

* `trace` — what can be seen of a timeline on which nothing is written but the logins;
* `Attempt.Ends` — the peer ends the stream or breaks it off, if an attempt gets that far;
* `playItems_course`, `Turn.playDial_course`, `Turn.play_course` — the parts of an attempt;
* `timelineFrom_course` — a whole timeline.
-/

namespace MarketStream.Link

/-- What can be seen of an event on a link that writes its login as the session opens. -/
def Sight.ofEvent (now : Nat) : Event → List Sight
  | .opened login failingWrite => [.event now (.opened login failingWrite), .line now login]
  | .woken => []
  | e@(.asked _) | e@(.dialled _) | e@(.received _) | e@(.failed _) => [.event now e]

/-- What can be seen of a timeline on which nothing is written but the logins. -/
def trace (t : Timeline) : List Sight := t.flatMap fun entry => Sight.ofEvent entry.1 entry.2

/-- Whether an item ends the stream. -/
def Attempt.Item.isEnd : Attempt.Item → Bool
  | .finish | .breakOff _ => true
  | .send _ | .wait _ => false

/-- The peer ends the stream or breaks it off, if an attempt gets that far. -/
def Attempt.Ends (a : Attempt) : Prop :=
  a.sessionFault = none → a.dialFault = none → failsAt a.failingWrite 1 = false →
    a.items.any Attempt.Item.isEnd

/-- Nothing is left of the attempts: all have failed, the link has stalled, or the last one does
not end. -/
def Stage.IsLast : Stage → Prop
  | resting _ _ _ attempts => attempts = []
  | talking turn => ¬turn.attempt.Ends
  | stalled _ _ => True
  | asking _ | dialling _ | opening _ _ => False

/-- If nothing is left of attempts that all end, and the link has not stalled, all have failed. -/
theorem Stage.IsLast.attempts_eq_nil {s : Stage} (h : s.IsLast) (ends : ∀ a ∈ s.attempts, a.Ends)
    (goesOn : s.isStalled = false) : s.attempts = [] := by
  cases s with
  | resting start number backoff attempts => exact h
  | talking turn => exact absurd (ends turn.attempt (.head _)) h
  | stalled backoff attempts => cases goesOn
  | asking _ | dialling _ | opening _ _ => exact h.elim

/-! ## Traces -/

@[simp] theorem trace_nil : trace [] = [] := rfl

@[simp] theorem trace_cons (now : Nat) (e : Event) (t : Timeline) :
    trace ((now, e) :: t) = Sight.ofEvent now e ++ trace t := rfl

@[simp] theorem trace_append (t t' : Timeline) : trace (t ++ t') = trace t ++ trace t' :=
  List.flatMap_append

/-- The end of a wait cannot be seen. -/
@[simp] theorem trace_pause (now ms : Nat) : trace (pause now ms).2 = [] := by
  unfold pause
  split <;> rfl

/-- A wait takes its time. -/
@[simp] theorem pause_fst (now ms : Nat) : (pause now ms).1 = now + ms := by
  unfold pause
  split
  next zero => simp [zero]
  · rfl

/-- A timeline is silent on an attempt that goes on, and else shows its failure next. -/
def Follows (channel : Channel) (replay : Option LoginReplay) (turn : Turn) (s : Stage) :
    Ending → Prop
  | none => s = .talking turn ∧ ¬turn.attempt.Ends
  | some (now, fault) =>
    Advances channel replay s (.event now (.failed fault)) (turn.after now)

variable {channel : Channel} {replay : Option LoginReplay}

/-! ## An open link -/

/-- Frames that arrive on an open link. -/
theorem arrivals_course (turn : Turn) (now : Nat) (frames : List Frame) :
    Course channel replay (.talking turn) (trace (arrivals now frames)) (.talking turn) := by
  induction frames with
  | nil => exact .nil
  | cons frame frames ih => exact .cons .receive ih

/-- What the peer does on an open link. -/
theorem playItems_course (turn : Turn) (now : Nat) (inbound : Inbound)
    (items : List Attempt.Item) :
    Course channel replay (.talking turn) (trace (playItems now inbound items).1)
      (.talking turn) := by
  induction items generalizing now inbound with
  | nil => exact .nil
  | cons item items ih =>
    cases item with
    | send bytes =>
      rw [playItems]
      split
      · exact arrivals_course turn now _
      · rw [trace_append]
        exact (arrivals_course turn now _).append (ih now _)
    | wait ms =>
      rw [playItems, trace_append, trace_pause, List.nil_append]
      exact ih _ inbound
    | finish => exact arrivals_course turn now _
    | breakOff reason => exact .nil

/-- A stream that is ended or broken off ends the attempt. -/
theorem playItems_ends (now : Nat) (inbound : Inbound) {items : List Attempt.Item}
    (h : items.any Attempt.Item.isEnd) : (playItems now inbound items).2.isSome := by
  induction items generalizing now inbound with
  | nil => cases h
  | cons item items ih =>
    cases item with
    | send bytes =>
      rw [playItems]
      split
      · rfl
      · exact ih now _ h
    | wait ms => exact ih _ inbound h
    | finish | breakOff reason => rfl

/-! ## An attempt -/

/-- An attempt from dialling on. -/
theorem Turn.playDial_course (turn : Turn) (now : Nat)
    (session : turn.attempt.sessionFault = none) :
    ∃ s, Course channel replay (.asking turn)
        (trace (turn.attempt.playDial now replay (addressOf channel turn.number)).1) s ∧
      Follows channel replay turn s
        (turn.attempt.playDial now replay (addressOf channel turn.number)).2 := by
  have dials : Course channel replay (.asking turn)
      (trace ((now, .dialled (addressOf channel turn.number)) ::
        (pause now turn.attempt.dialWait).2)) (.dialling turn) := by
    simpa [Sight.ofEvent] using Course.single (.dial session)
  unfold Attempt.playDial
  cases reached : turn.attempt.dialFault with
  | some fault => exact ⟨.dialling turn, dials, .noAnswer reached⟩
  | none =>
    cases writes : failsAt turn.attempt.failingWrite 1 with
    | true =>
      simp only [if_true]
      exact ⟨.dialling turn, dials, .noLogin reached writes⟩
    | false =>
      simp only [Bool.false_eq_true, if_false]
      refine ⟨.talking turn, ?_, ?_⟩
      · rw [trace_append, trace_cons]
        exact dials.append (.cons (.opens reached writes)
          (.cons .login (playItems_course turn _ .empty _)))
      · cases ending : (playItems (pause now turn.attempt.dialWait).1 .empty
          turn.attempt.items).2 with
        | none =>
          refine ⟨rfl, fun ends => ?_⟩
          have ended := playItems_ends (pause now turn.attempt.dialWait).1 .empty
            (ends session reached writes)
          rw [ending] at ended
          cases ended
        | some failure => exact .lose

/-- A whole attempt. -/
theorem Turn.play_course (turn : Turn) (start : Nat) :
    ∃ s, Course channel replay
        (.resting start turn.number turn.backoff (turn.attempt :: turn.later))
        (trace (turn.attempt.play start turn.number replay (addressOf channel turn.number)).1) s ∧
      Follows channel replay turn s
        (turn.attempt.play start turn.number replay (addressOf channel turn.number)).2 := by
  have asks : Course channel replay
      (.resting start turn.number turn.backoff (turn.attempt :: turn.later))
      (trace ((start, .asked turn.number) :: (pause start turn.attempt.sessionWait).2))
      (.asking turn) := by
    simpa [Sight.ofEvent] using Course.single .ask
  unfold Attempt.play
  cases session : turn.attempt.sessionFault with
  | some fault => exact ⟨.asking turn, asks, .noSession session⟩
  | none =>
    obtain ⟨s, dialled, follows⟩ :=
      turn.playDial_course (pause start turn.attempt.sessionWait).1 session
    refine ⟨s, ?_, follows⟩
    rw [trace_append]
    exact asks.append dialled

/-! ## A timeline -/

/-- The timeline of attempts is a course that leaves nothing of them. -/
theorem timelineFrom_course (start number : Nat) (backoff : Backoff) (attempts : List Attempt) :
    ∃ s, Course channel replay (.resting start number backoff attempts)
        (trace (timelineFrom channel replay start number backoff attempts)) s ∧ s.IsLast := by
  induction attempts generalizing start number backoff with
  | nil => exact ⟨_, .nil, rfl⟩
  | cons a later ih =>
    obtain ⟨s, played, follows⟩ := Turn.play_course ⟨number, backoff, a, later⟩ start
    rw [timelineFrom]
    generalize a.play start number replay (addressOf channel number) = course at played follows ⊢
    obtain ⟨events, _ | ⟨failedAt, fault⟩⟩ := course
    · obtain ⟨rfl, endless⟩ := follows
      exact ⟨_, played, endless⟩
    · have fails := played.append (.single follows)
      simp only [trace_append, trace_cons, Sight.ofEvent]
      unfold Turn.after at fails
      cases next : backoff.next? failedAt with
      | none =>
        simp only [next] at fails
        exact ⟨_, fails, trivial⟩
      | some waits =>
        obtain ⟨delay, backoff'⟩ := waits
        simp only [next] at fails
        obtain ⟨s', goesOn, isLast⟩ := ih (failedAt + delay) (number + 1) backoff'
        refine ⟨s', ?_, isLast⟩
        simpa using fails.append goesOn

end MarketStream.Link
