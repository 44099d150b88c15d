import MarketStream.Proofs.Desk.Watch
import MarketStream.Proofs.Link.Course
import MarketStream.Proofs.Link.Windows

/-!
# What the clock can show

Two times are reckoned ahead of the present instant: the end of the window that a failure opens, and
the first check of a monitor that is started. Where the clock cannot show one of them, the link or
the monitor ends there. Which lengths can be reckoned with up to which instant is a matter of two
sums, and settings that are valid may have any sums at all.

* `Settings.FitsClock` — the two sums;
* `Backoff.length_answers`, `Desk.firstCheck?_eq_some_iff` — when the times can be reckoned;
* `Settings.TellsTimes`, `Settings.GoesOn` — they always are, and nothing that runs ends by itself;
* `goes_on_iff_fits_clock` — both mean that the sums are in range.
-/

namespace MarketStream

open Link (Backoff Course Sight)

/-- The clock can show what lies a window, or an interval between two checks, after any instant up
to a last one. -/
structure Settings.FitsClock (s : Settings) (last : Nat) : Prop where
  /-- The end of a window. -/
  window : last / 1000 + s.reconnect.windowSecs.toNat < Backoff.clockLimit
  /-- The next check. -/
  check : last / 1000 + s.heartbeat.intervalSecs.toNat < Backoff.clockLimit

/-! ## Failures -/

namespace Link.Backoff

variable {b : Backoff} {times : List Nat}

/-- Failures are all answered if the clock can show the end of a window after each. -/
theorem length_answers (shown : ∀ t ∈ times, t / 1000 + b.windowSecs < clockLimit) :
    (b.answers times).length = times.length := by
  induction times generalizing b with
  | nil => rfl
  | cons t later ih =>
    obtain ⟨here, there⟩ := List.forall_mem_cons.mp shown
    rw [answers]
    cases next : b.next? t with
    | none => exact absurd (clockLimit_le_of_next? next) (Nat.not_le.mpr here)
    | some answer =>
      obtain ⟨delay, b'⟩ := answer
      have kept : b'.windowSecs = b.windowSecs := next?_windowSecs next
      rw [← kept] at there
      exact congrArg (· + 1) (ih there)

/-- The very first failure is answered only if the clock can show the end of its window. -/
theorem lt_clockLimit_of_answered {s : Settings.Reconnect} {t : Nat}
    (answered : (ofSettings s).next? t ≠ none) : t / 1000 + s.windowSecs.toNat < clockLimit := by
  rw [next?_of_shut rfl] at answered
  by_contra beyond
  exact answered (if_neg beyond)

end Link.Backoff

/-! ## Checks -/

namespace Desk

variable {d : Desk}

/-- The first check comes after the interval if the clock can show it. -/
theorem firstCheck?_eq_some_iff (positive : 0 < d.aggregator.settings.interval) :
    d.firstCheck? = some (d.now + d.aggregator.settings.interval) ↔
      d.now / 1000 + d.aggregator.settings.heartbeat.intervalSecs.toNat
        < Link.Backoff.clockLimit := by
  have seconds : 0 < d.aggregator.settings.heartbeat.intervalSecs.toNat := by
    rw [Settings.interval] at positive
    omega
  rw [firstCheck?]
  simp only [seconds, true_and, Option.ite_none_right_eq_some]
  exact and_iff_left rfl

/-- Whoever sets an alarm waits for it, and so does everyone who did before. -/
theorem Alarms.awaits_set (a : Alarm) (s : Sleeper) (alarms : Alarms) :
    (alarms.set a).awaits s = (a.sleeper == s || alarms.awaits s) := by
  induction alarms with
  | nil => rfl
  | cons b rest ih =>
    rw [Alarms.set]
    split
    · show (b.sleeper == s || (Alarms.set a rest).awaits s) = _
      rw [ih, Bool.or_left_comm]
      rfl
    · rfl

/-- A monitor has ended as soon as it was started if it has no first check, and otherwise it waits
for that. -/
theorem hasEnded_monitor (unclosed : d.aggregator.isClosed = false) :
    d.monitor.1.hasEnded d.monitor.2 =
      (d.firstCheck?.isNone && !d.alarms.awaits (.monitor d.monitors)) := by
  have number : d.monitor.2 = d.monitors := by
    rw [monitor]
    split <;> rfl
  rw [hasEnded, number, monitor_fst unclosed]
  cases d.firstCheck? with
  | none => rfl
  | some due => simp [Alarms.awaits_set]

end Desk

/-! ## All that runs -/

namespace Settings

variable {s : Settings} {last : Nat}

/-- All times ahead can be reckoned up to a last instant. -/
structure TellsTimes (s : Settings) (last : Nat) : Prop where
  /-- Any failures are all answered. -/
  answered : ∀ times, (∀ t ∈ times, t ≤ last) →
    ((Backoff.ofSettings s.reconnect).answers times).length = times.length
  /-- Any monitor has a first check, an interval after its start. -/
  checked : ∀ d : Desk, d.aggregator.settings = s → d.now ≤ last →
    d.firstCheck? = some (d.now + s.interval)

/-- Nothing that runs ends by itself up to a last instant. -/
structure GoesOn (s : Settings) (last : Nat) : Prop where
  /-- No link stalls, whatever fails. -/
  links : ∀ channel replay start attempts sights stage,
    Course channel replay (.resting start 1 (.ofSettings s.reconnect) attempts) sights stage →
    (∀ now fault, Sight.event now (.failed fault) ∈ sights → now ≤ last) →
    stage.isStalled = false
  /-- No monitor has ended as soon as it is started. -/
  monitors : ∀ d : Desk, d.aggregator.settings = s → d.aggregator.isClosed = false →
    d.now ≤ last → d.monitor.1.hasEnded d.monitor.2 = false

/-- A desk on which nothing has happened up to an instant. -/
def idleDesk (s : Settings) (now : Nat) : Desk := { Desk.fresh s (fun _ => "") fun _ => "" with now }

namespace FitsClock

variable (h : s.FitsClock last)
include h

theorem shown {t : Nat} (past : t ≤ last) :
    t / 1000 + s.reconnect.windowSecs.toNat < Backoff.clockLimit := by
  have := h.window
  have : t / 1000 ≤ last / 1000 := Nat.div_le_div_right past
  omega

theorem firstCheck?_eq (positive : 0 < s.interval) {d : Desk} (same : d.aggregator.settings = s)
    (past : d.now ≤ last) : d.firstCheck? = some (d.now + s.interval) := by
  subst same
  rw [Desk.firstCheck?_eq_some_iff positive]
  have := h.check
  have : d.now / 1000 ≤ last / 1000 := Nat.div_le_div_right past
  omega

theorem tellsTimes (positive : 0 < s.interval) : s.TellsTimes last where
  answered _ past := Backoff.length_answers fun t ht => h.shown (past t ht)
  checked _ := h.firstCheck?_eq positive

theorem goesOn (positive : 0 < s.interval) : s.GoesOn last where
  links channel replay start attempts sights stage course past := by
    by_contra stalled
    obtain ⟨now, fault, mem, beyond⟩ := course.clockLimit_le rfl (eq_true_of_ne_false stalled)
    exact absurd (h.shown (past now fault mem)) (Nat.not_lt.mpr beyond)
  monitors d same unclosed past := by
    rw [Desk.hasEnded_monitor unclosed, h.firstCheck?_eq positive same past]
    rfl

end FitsClock

/-- The first failure and the first monitor can be as late as the last instant. -/
theorem TellsTimes.fitsClock (h : s.TellsTimes last) (positive : 0 < s.interval) :
    s.FitsClock last where
  window := by
    have answered := h.answered [last] (by simp)
    refine Backoff.lt_clockLimit_of_answered fun nothing => ?_
    rw [Backoff.answers, nothing] at answered
    cases answered
  check :=
    (Desk.firstCheck?_eq_some_iff (d := s.idleDesk last) positive).mp
      (h.checked (s.idleDesk last) rfl (Nat.le_refl last))

/-- A link whose first session is denied at the last instant, and a monitor that is started then, go
on only if the times ahead of them can be shown. -/
theorem GoesOn.fitsClock (h : s.GoesOn last) (positive : 0 < s.interval) : s.FitsClock last where
  window := by
    refine Backoff.lt_clockLimit_of_answered fun nothing => ?_
    let denied : Link.Turn :=
      ⟨1, .ofSettings s.reconnect, { sessionFault := some .streamClosed }, []⟩
    have fails : Link.Advances .public none (.asking denied) (.event last (.failed .streamClosed))
        (denied.after last) := .noSession rfl
    have course : Course .public none (.resting last 1 denied.backoff [denied.attempt])
        [.event last (.asked 1), .event last (.failed .streamClosed)] (denied.after last) :=
      .cons .ask (.single fails)
    have goesOn := h.links _ _ _ _ _ _ course (by simp)
    rw [Link.Turn.after, nothing] at goesOn
    cases goesOn
  check := by
    have waits := h.monitors (s.idleDesk last) rfl rfl (Nat.le_refl last)
    rw [Desk.hasEnded_monitor rfl] at waits
    rcases Desk.firstCheck?_cases (d := s.idleDesk last) positive with some | ⟨none, -⟩
    · exact (Desk.firstCheck?_eq_some_iff (d := s.idleDesk last) positive).mp some
    · rw [none] at waits
      cases waits

/-- **How long the clock goes on.** Take valid settings and any last instant of a run. Up to this
instant the end of every window that a failure opens and the first check of every monitor can be
reckoned, whenever failures come and monitors are started, exactly if a window, and an interval
between two checks, both lie within the range of the clock when they are counted from the last
instant. And that is exactly when no link stalls, however it fails, and no monitor ends at its
start. -/
theorem goes_on_iff_fits_clock (valid : s.validate = .ok s) (last : Nat) :
    (s.TellsTimes last ↔ s.FitsClock last) ∧ (s.GoesOn last ↔ s.FitsClock last) := by
  have positive := interval_pos valid
  exact ⟨⟨fun h => h.fitsClock positive, fun h => h.tellsTimes positive⟩,
    ⟨fun h => h.fitsClock positive, fun h => h.goesOn positive⟩⟩

/-- By default everything goes on for as long as the clock does, but for its last minute. -/
theorem goes_on_with_defaults :
    Settings.standard.validate = .ok .standard ∧
      Settings.standard.GoesOn (Desk.clockEnd - 60001) ∧
      ¬ Settings.standard.TellsTimes (Desk.clockEnd - 60000) := by
  have valid : Settings.standard.validate = .ok .standard := by decide
  obtain ⟨-, goesOn⟩ := goes_on_iff_fits_clock valid (Desk.clockEnd - 60001)
  obtain ⟨tells, -⟩ := goes_on_iff_fits_clock valid (Desk.clockEnd - 60000)
  have late : ¬ Settings.standard.FitsClock (Desk.clockEnd - 60000) := fun h =>
    absurd h.window (by decide +kernel)
  exact ⟨valid, goesOn.mpr ⟨by decide +kernel, by decide +kernel⟩, fun h => late (tells.mp h)⟩

/-- Valid settings may have a window or an interval that the clock can never show. -/
theorem overlong_times_never_shown :
    let s : Settings := { reconnect := { windowSecs := 0xffffffffffffffff } }
    let s' : Settings := { heartbeat := { intervalSecs := 0xffffffffffffffff } }
    (s.validate = .ok s ∧ (Backoff.ofSettings s.reconnect).next? 0 = none) ∧
      s'.validate = .ok s' ∧ (s'.idleDesk 0).firstCheck? = none ∧
        (s'.idleDesk 0).monitor.1.hasEnded (s'.idleDesk 0).monitor.2 = true :=
  ⟨by decide, by decide, by decide, by decide⟩

end Settings

end MarketStream
