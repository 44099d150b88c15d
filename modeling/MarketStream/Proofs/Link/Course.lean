import MarketStream.Link.Timeline

/-!
# The course of a link

The rules a link keeps to, said of what can be seen from outside and without a timeline: an attempt
asks for its session once, dials, logs in before anything else is written, and then reads and
writes until it fails; the next one begins after the delay that the table gives.

* `Sight` — what can be seen of a link; `Stage` — where a link stands;
* `Turn.after` — where a failed attempt leaves the link; `Advances` — the rules;
* `Course` — one sight after the other.
-/

namespace MarketStream.Link

/-- What can be seen of a link: an event, or a line that is written to the peer. -/
inductive Sight where
  /-- An event. -/
  | event (now : Nat) (e : Event)
  /-- A line. -/
  | line (now : Nat) (command : Command)
deriving DecidableEq

/-- An attempt with its number, and what there is for the time after it. -/
structure Turn where
  /-- The number of the attempt. -/
  number : Nat
  /-- The delays at its beginning. -/
  backoff : Backoff
  /-- How the other side behaves. -/
  attempt : Attempt
  /-- The attempts after it. -/
  later : List Attempt

/-- Where a link stands. -/
inductive Stage where
  /-- The attempt of a number begins at an instant. -/
  | resting (start number : Nat) (backoff : Backoff) (attempts : List Attempt)
  /-- A session has been asked for. -/
  | asking (turn : Turn)
  /-- An address has been dialled. -/
  | dialling (turn : Turn)
  /-- The link is open, and the login is the next thing to be written. -/
  | opening (turn : Turn) (now : Nat)
  /-- The link is open and the login is written. -/
  | talking (turn : Turn)
  /-- The clock cannot show the end of the window that a failure opens. -/
  | stalled (backoff : Backoff) (attempts : List Attempt)

/-- Where a link stands after an attempt that fails at an instant. -/
def Turn.after (turn : Turn) (now : Nat) : Stage :=
  match turn.backoff.next? now with
  | some (delay, backoff) => .resting (now + delay) (turn.number + 1) backoff turn.later
  | none => .stalled turn.backoff turn.later

/-- The rules of a link on a channel: which sight takes it from one stage to another. -/
inductive Advances (channel : Channel) (replay : Option LoginReplay) :
    Stage → Sight → Stage → Prop where
  | ask {start number : Nat} {backoff : Backoff} {attempt : Attempt} {later : List Attempt} :
    Advances channel replay (.resting start number backoff (attempt :: later))
      (.event start (.asked number)) (.asking ⟨number, backoff, attempt, later⟩)
  | dial {turn : Turn} {now : Nat} (session : turn.attempt.sessionFault = none) :
    Advances channel replay (.asking turn)
      (.event now (.dialled (addressOf channel turn.number))) (.dialling turn)
  | opens {turn : Turn} {now : Nat} (reached : turn.attempt.dialFault = none)
      (writes : failsAt turn.attempt.failingWrite 1 = false) :
    Advances channel replay (.dialling turn)
      (.event now (.opened (.login turn.attempt.key replay) turn.attempt.failingWrite))
      (.opening turn now)
  | login {turn : Turn} {now : Nat} :
    Advances channel replay (.opening turn now) (.line now (.login turn.attempt.key replay))
      (.talking turn)
  | receive {turn : Turn} {now : Nat} {frame : Frame} :
    Advances channel replay (.talking turn) (.event now (.received frame)) (.talking turn)
  | write {turn : Turn} {now : Nat} {command : Command} :
    Advances channel replay (.talking turn) (.line now command) (.talking turn)
  | noSession {turn : Turn} {now : Nat} {fault : Fault}
      (denied : turn.attempt.sessionFault = some fault) :
    Advances channel replay (.asking turn) (.event now (.failed fault)) (turn.after now)
  | noAnswer {turn : Turn} {now : Nat} {fault : Fault}
      (unreached : turn.attempt.dialFault = some fault) :
    Advances channel replay (.dialling turn) (.event now (.failed fault)) (turn.after now)
  | noLogin {turn : Turn} {now : Nat} (reached : turn.attempt.dialFault = none)
      (breaks : failsAt turn.attempt.failingWrite 1 = true) :
    Advances channel replay (.dialling turn) (.event now (.failed writeFault)) (turn.after now)
  | lose {turn : Turn} {now : Nat} {fault : Fault} :
    Advances channel replay (.talking turn) (.event now (.failed fault)) (turn.after now)

/-- Sights that take a link from one stage to another, each by a rule. -/
inductive Course (channel : Channel) (replay : Option LoginReplay) :
    Stage → List Sight → Stage → Prop where
  | nil {s : Stage} : Course channel replay s [] s
  | cons {s t u : Stage} {sight : Sight} {sights : List Sight}
      (first : Advances channel replay s sight t) (rest : Course channel replay t sights u) :
    Course channel replay s (sight :: sights) u

/-! ## Stages -/

namespace Stage

/-- The attempts that have not failed yet. -/
def attempts : Stage → List Attempt
  | resting _ _ _ attempts | stalled _ attempts => attempts
  | asking turn | dialling turn | opening turn _ | talking turn => turn.attempt :: turn.later

/-- The length of a window. -/
def windowSecs : Stage → Nat
  | resting _ _ backoff _ | stalled backoff _ => backoff.windowSecs
  | asking turn | dialling turn | opening turn _ | talking turn => turn.backoff.windowSecs

/-- Whether the link is open. -/
def hasSession : Stage → Bool
  | opening _ _ | talking _ => true
  | resting _ _ _ _ | asking _ | dialling _ | stalled _ _ => false

/-- Whether there is no going on. -/
def isStalled : Stage → Bool
  | stalled _ _ => true
  | resting _ _ _ _ | asking _ | dialling _ | opening _ _ | talking _ => false

/-- Once all attempts have failed no session is open. -/
theorem hasSession_of_attempts_eq_nil {s : Stage} (h : s.attempts = []) : s.hasSession = false := by
  cases s with
  | opening _ _ | talking _ => cases h
  | resting _ _ _ _ | asking _ | dialling _ | stalled _ _ => rfl

end Stage

/-- A delay leaves the length of the windows. -/
theorem Backoff.next?_windowSecs {b b' : Backoff} {now delay : Nat}
    (h : b.next? now = some (delay, b')) : b'.windowSecs = b.windowSecs := by
  unfold Backoff.next? at h
  split at h
  · cases h
    rfl
  · split at h
    · cases h
      rfl
    · cases h

/-- There is no delay only if the clock cannot show the end of a window. -/
theorem Backoff.clockLimit_le_of_next? {b : Backoff} {now : Nat} (h : b.next? now = none) :
    clockLimit ≤ now / 1000 + b.windowSecs := by
  unfold Backoff.next? at h
  split at h
  · cases h
  · split at h
    · cases h
    · omega

namespace Turn

variable (turn : Turn) (now : Nat)

/-- A failure leaves the attempts after the one that failed. -/
@[simp] theorem after_attempts : (turn.after now).attempts = turn.later := by
  unfold after
  split <;> rfl

/-- A failure leaves the length of the windows. -/
@[simp] theorem after_windowSecs : (turn.after now).windowSecs = turn.backoff.windowSecs := by
  unfold after
  split
  next h => exact Backoff.next?_windowSecs h
  · rfl

/-- After a failure no session is open. -/
@[simp] theorem after_hasSession : (turn.after now).hasSession = false := by
  unfold after
  split <;> rfl

/-- A link stalls only if the clock cannot show the end of a window. -/
theorem clockLimit_le_of_after (h : (turn.after now).isStalled) :
    Backoff.clockLimit ≤ now / 1000 + turn.backoff.windowSecs := by
  unfold after at h
  split at h
  · cases h
  next none => exact Backoff.clockLimit_le_of_next? none

end Turn

/-! ## Courses -/

namespace Course

variable {channel : Channel} {replay : Option LoginReplay} {s t u : Stage}
variable {sights others : List Sight}

/-- A single sight. -/
theorem single {sight : Sight} (h : Advances channel replay s sight t) :
    Course channel replay s [sight] t := .cons h .nil

/-- One course after the other. -/
theorem append (h : Course channel replay s sights t) (h' : Course channel replay t others u) :
    Course channel replay s (sights ++ others) u := by
  induction h with
  | nil => exact h'
  | cons first _ ih => exact .cons first (ih h')

/-- A course can be parted anywhere. -/
theorem of_append (h : Course channel replay s (sights ++ others) u) :
    ∃ t, Course channel replay s sights t ∧ Course channel replay t others u := by
  induction sights generalizing s with
  | nil => exact ⟨s, .nil, h⟩
  | cons sight sights ih =>
    cases h with
    | cons first rest =>
      obtain ⟨t, left, right⟩ := ih rest
      exact ⟨t, .cons first left, right⟩

/-- A course without sights stays where it is. -/
theorem eq_of_nil (h : Course channel replay s [] t) : s = t := by
  cases h
  rfl

/-- A course keeps the length of the windows. -/
theorem windowSecs (h : Course channel replay s sights t) : t.windowSecs = s.windowSecs := by
  induction h with
  | nil => rfl
  | cons first _ ih =>
    rw [ih]
    cases first <;> first | rfl | exact Turn.after_windowSecs ..

/-- A course goes through the attempts in their order. -/
theorem attempts_suffix (h : Course channel replay s sights t) : t.attempts <:+ s.attempts := by
  induction h with
  | nil => exact List.suffix_rfl
  | cons first _ ih =>
    refine ih.trans ?_
    cases first with
    | noSession | noAnswer | noLogin | lose =>
      rw [Turn.after_attempts]
      exact List.suffix_cons ..
    | _ => exact List.suffix_rfl

/-- A link stalls only at a failure so late that the clock cannot show the end of a window. -/
theorem clockLimit_le (h : Course channel replay s sights t) (before : s.isStalled = false)
    (after : t.isStalled) :
    ∃ now fault, .event now (.failed fault) ∈ sights ∧
      Backoff.clockLimit ≤ now / 1000 + s.windowSecs := by
  induction h with
  | nil => simp [before] at after
  | @cons s m u sight sights first rest ih =>
    cases middle : m.isStalled with
    | false =>
      obtain ⟨now, fault, mem, late⟩ := ih middle after
      exact ⟨now, fault, .tail _ mem, (single first).windowSecs ▸ late⟩
    | true =>
      cases first with
      | noSession | noAnswer | noLogin | lose =>
        exact ⟨_, _, .head _, Turn.clockLimit_le_of_after _ _ middle⟩
      | _ => cases middle

end Course

end MarketStream.Link
