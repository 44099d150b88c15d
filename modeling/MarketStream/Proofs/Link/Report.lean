import Mathlib.Data.List.Induction
import MarketStream.Proofs.Link.Course

/-!
# What the listener is told

The listener of a link is told when a session opens, of each frame, and when an attempt fails. Over
a course these calls come in blocks, one for each attempt.

* `Call` — what the listener is told; `IsWhole`, `IsCutShort` — the blocks there can be;
* `Report` — the blocks of a course, with what they say of the stage it ends in;
* `Course.report` — every course that begins without a session has one.
-/

namespace MarketStream.Link

/-- What the listener of a link is told. -/
inductive Call where
  /-- A session is open. -/
  | connected
  /-- A frame has arrived. -/
  | message (frame : Frame)
  /-- The attempt has failed. -/
  | failed (fault : Fault)
deriving DecidableEq

/-- What the listener is told at a sight. -/
def Sight.call? : Sight → Option Call
  | .event _ (.opened _ _) => some .connected
  | .event _ (.received frame) => some (.message frame)
  | .event _ (.failed fault) => some (.failed fault)
  | .event _ (.asked _) | .event _ (.dialled _) | .event _ .woken | .line _ _ => none

/-- What the listener is told at sights. -/
def calls (sights : List Sight) : List Call := sights.filterMap Sight.call?

/-- What is told of an attempt that has failed: the failure alone, or that a session is open, its
frames, and the failure. -/
def IsWhole (block : List Call) : Prop :=
  ∃ fault, block = [.failed fault] ∨
    ∃ frames : List Frame, block = .connected :: frames.map .message ++ [.failed fault]

/-- What is told of an attempt that is cut short: nothing, or that a session is open and its frames
so far. -/
def IsCutShort (block : List Call) : Prop :=
  block = [] ∨ ∃ frames : List Frame, block = .connected :: frames.map .message

/-- What the listener is told while a link goes from one stage to another: a block for each attempt
that fails, and one for the attempt under way. -/
structure Report (before after : Stage) (told : List Call) (blocks : List (List Call))
    (latest : List Call) : Prop where
  /-- The blocks are all that is told. -/
  told_eq : told = blocks.flatten ++ latest
  /-- Each failed attempt is told of from its beginning to its end. -/
  whole : ∀ block ∈ blocks, IsWhole block
  /-- The attempt under way is told of so far. -/
  cut : IsCutShort latest
  /-- The attempt under way is told of as soon as its session is open. -/
  session : latest ≠ [] ↔ after.hasSession
  /-- There is one block for each attempt that has failed. -/
  attempts : before.attempts.length = blocks.length + after.attempts.length

namespace Report

variable {channel : Channel} {replay : Option LoginReplay} {s t u : Stage}
variable {told : List Call} {blocks : List (List Call)} {latest : List Call}

/-- Nothing is told. -/
theorem nil (h : s.hasSession = false) : Report s s [] [] [] :=
  ⟨rfl, by simp, .inl rfl, by simp [h], by simp⟩

/-- Nothing is told of a step that neither opens nor ends a session. -/
theorem silent (r : Report s t told blocks latest) (session : u.hasSession = t.hasSession)
    (attempts : u.attempts = t.attempts) : Report s u told blocks latest :=
  { r with
    session := session ▸ r.session
    attempts := attempts ▸ r.attempts }

/-- Without a session nothing is told of the attempt under way. -/
theorem latest_eq_nil (r : Report s t told blocks latest) (h : t.hasSession = false) :
    latest = [] := by
  by_contra open_
  simp [r.session.1 open_] at h

/-- With a session its opening and its frames have been told. -/
theorem exists_frames (r : Report s t told blocks latest) (h : t.hasSession) :
    ∃ frames : List Frame, latest = .connected :: frames.map .message :=
  r.cut.resolve_left (r.session.2 h)

/-- A failure makes the attempt under way a whole one. -/
theorem fail (r : Report s t told blocks latest) {turn : Turn} {now : Nat} (fault : Fault)
    (attempts : t.attempts = turn.attempt :: turn.later) :
    Report s (turn.after now) (told ++ [.failed fault]) (blocks ++ [latest ++ [.failed fault]]) []
    where
  told_eq := by simp [r.told_eq]
  whole block mem := by
    obtain mem | rfl : block ∈ blocks ∨ block = latest ++ [.failed fault] := by simpa using mem
    · exact r.whole block mem
    obtain rfl | ⟨frames, rfl⟩ := r.cut
    · exact ⟨fault, .inl rfl⟩
    · exact ⟨fault, .inr ⟨frames, rfl⟩⟩
  cut := .inl rfl
  session := by simp
  attempts := by
    have counted := r.attempts
    simp only [attempts, List.length_cons, List.length_append, List.length_nil,
      Turn.after_attempts] at counted ⊢
    omega

/-- What a step adds to a report. -/
theorem advance {sight : Sight} (r : Report s t told blocks latest)
    (h : Advances channel replay t sight u) :
    ∃ blocks' latest', Report s u (told ++ sight.call?.toList) blocks' latest' := by
  cases h with
  | ask | dial | login | write =>
    refine ⟨blocks, latest, ?_⟩
    simp only [Sight.call?, Option.toList_none, List.append_nil]
    exact r.silent rfl rfl
  | opens =>
    obtain rfl := r.latest_eq_nil rfl
    exact ⟨blocks, [.connected], by simp [r.told_eq, Sight.call?], r.whole, .inr ⟨[], rfl⟩,
      by simp [Stage.hasSession], r.attempts⟩
  | @receive _ _ frame =>
    obtain ⟨frames, rfl⟩ := r.exists_frames rfl
    exact ⟨blocks, .connected :: (frames ++ [frame]).map .message,
      by simp [r.told_eq, Sight.call?], r.whole, .inr ⟨_, rfl⟩, by simp [Stage.hasSession],
      r.attempts⟩
  | noSession | noAnswer | noLogin | lose => exact ⟨_, _, r.fail _ rfl⟩

end Report

/-- What the listener is told over a course that begins without a session. -/
theorem Course.report {channel : Channel} {replay : Option LoginReplay} {s t : Stage}
    {sights : List Sight} (h : Course channel replay s sights t) (fresh : s.hasSession = false) :
    ∃ blocks latest, Report s t (calls sights) blocks latest := by
  induction sights using List.reverseRecOn generalizing t with
  | nil =>
    obtain rfl := h.eq_of_nil
    exact ⟨[], [], .nil fresh⟩
  | append_singleton sights sight ih =>
    obtain ⟨m, before, last⟩ := h.of_append
    obtain ⟨blocks, latest, r⟩ := ih before
    cases last with
    | cons first rest =>
      obtain rfl := rest.eq_of_nil
      obtain ⟨blocks, latest, r⟩ := r.advance first
      refine ⟨blocks, latest, ?_⟩
      cases called : sight.call? <;> simpa [calls, called] using r

end MarketStream.Link
