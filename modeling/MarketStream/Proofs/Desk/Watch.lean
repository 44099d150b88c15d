import MarketStream.Proofs.Desk.Probing

/-!
# Watching silent channels

A desk without subscriptions whose channels come up, bring frames and fail as they like, and whose
monitor was started once. Heartbeats are written at its checks, to channels that have been silent for
longer than the limit, and no channel is left silent for much longer without one.

* `Deed`, `Desk.does` — what may happen to the desk, and what it does then;
* `Watch` — the desk with what was seen of it: signs of life, and what was written when;
* `Alarmed` — what the monitor waits for; `Alarmed.wait`, `Alarmed.ring` — as time passes;
* `Watch.Probed`, `Watch.Sound` — what holds at any time;
* `Watch.IsDue`, `Watch.IsSilent` — when a check is made, and whom it probes; `mem_written_ring`;
* `Watch.Sound.next`, `Watch.sound_after` — what one step keeps, and what holds after any;
* `Watch.Sound.written_eq_nil` — nothing but a check writes to a line.
-/

namespace MarketStream

/-! ## What may happen -/

/-- What may happen to a desk that nobody asks for anything. -/
inductive Deed where
  /-- A line is laid. -/
  | lay (channel : Channel)
  /-- A channel comes up with a line. -/
  | connect (channel : Channel) (n : Nat)
  /-- A channel brings a frame. -/
  | receive (channel : Channel) (f : Frame)
  /-- A channel fails. -/
  | fail (channel : Channel) (fault : Fault)
  /-- The other end of a line goes away. -/
  | hangUp (n : Nat)
  /-- The other end of a line takes what is queued on it. -/
  | drain (n : Nat)
  /-- The monitor is started. -/
  | monitor
  /-- Time passes in which nothing happens. -/
  | wait (ms : Nat)
  /-- The next alarm goes off. -/
  | ring
deriving DecidableEq

namespace Desk

/-- The first instant, in milliseconds, that a clock cannot show. -/
def clockEnd : Nat := Link.Backoff.clockLimit * 1000

/-- Whether so much time may pass in which nothing happens: the clock can show it, and no alarm is due
before. -/
def CanWait (d : Desk) (ms : Nat) : Prop :=
  d.now + ms < clockEnd ∧ ∀ a ∈ d.alarms, d.now + ms ≤ a.due

instance (d : Desk) (ms : Nat) : Decidable (d.CanWait ms) := inferInstanceAs (Decidable (_ ∧ _))

/-- What the desk does. A channel comes up only with a line that was laid, and there is one monitor
only. -/
def does (d : Desk) : Deed → Desk
  | .lay channel => d.onBoard fun b => (b.attach channel).1
  | .connect channel n => if n < d.aggregator.board.lines.length then d.connect channel n else d
  | .receive channel f => d.receive channel f
  | .fail channel fault => d.fail channel fault
  | .hangUp n => d.onBoard fun b => b.hangUp n
  | .drain n => d.onBoard fun b => (b.drain n).1
  | .monitor => if d.monitors = 0 then d.monitor.1 else d
  | .wait ms => if d.CanWait ms then { d with now := d.now + ms } else d
  | .ring =>
    match d.alarms with
    | [] => d
    | a :: rest => if a.due = d.now then { d with alarms := rest }.wake a.sleeper else d

end Desk

/-- A desk with what was seen of it. -/
structure Watch where
  /-- The desk. -/
  desk : Desk
  /-- When the monitor was started. -/
  started : Option Nat
  /-- When each channel last came up or brought a frame. -/
  signs : ByChannel (Option Nat)
  /-- What was queued on each line, and when, oldest first. -/
  log : Nat → List (Nat × Command)

namespace Watch

/-- The lines of the desk. -/
abbrev board (w : Watch) : Link.Switchboard := w.desk.aggregator.board

/-- The line that a channel writes to. -/
abbrev writer? (w : Watch) (channel : Channel) : Option Nat := w.desk.aggregator.writers.get channel

/-- What is written to a line when something happens. -/
def written (w : Watch) (deed : Deed) (n : Nat) : List Command :=
  w.board.added (w.desk.does deed).aggregator.board n

/-- When the monitor was started. -/
def startedAfter (w : Watch) : Deed → Option Nat
  | .monitor => if w.desk.monitors = 0 then some w.desk.now else w.started
  | _ => w.started

/-- When each channel last came up or brought a frame. -/
def signsAfter (w : Watch) : Deed → ByChannel (Option Nat)
  | .connect channel n =>
    if n < w.board.lines.length then w.signs.set channel (some w.desk.now) else w.signs
  | .receive channel _ => w.signs.set channel (some w.desk.now)
  | _ => w.signs

/-- Something happens. -/
def next (w : Watch) (deed : Deed) : Watch where
  desk := w.desk.does deed
  started := w.startedAfter deed
  signs := w.signsAfter deed
  log n := w.log n ++ (w.written deed n).map fun c => (w.desk.now, c)

/-- All that happens, one thing after another. -/
def run (w : Watch) (deeds : List Deed) : Watch := deeds.foldl next w

/-- A desk on which nothing has happened. -/
def fresh (settings : Settings) (ids : Nat → String) (timesOfDay : Nat → String) : Watch :=
  ⟨.fresh settings ids timesOfDay, none, .both none, fun _ => []⟩

/-- A new desk after all that happened. -/
def after (settings : Settings) (ids : Nat → String) (timesOfDay : Nat → String) (deeds : List Deed) :
    Watch :=
  (fresh settings ids timesOfDay).run deeds

theorem subset_log_next (w : Watch) (deed : Deed) (n : Nat) : w.log n ⊆ (w.next deed).log n :=
  List.subset_append_left ..

theorem after_concat (settings : Settings) (ids : Nat → String) (timesOfDay : Nat → String)
    (deeds : List Deed) (deed : Deed) :
    after settings ids timesOfDay (deeds ++ [deed])
      = (after settings ids timesOfDay deeds).next deed :=
  List.foldl_concat ..

end Watch

/-! ## What channels report -/

namespace Desk

/-- A channel that comes up where nothing is to be repeated gets its line, and shows a sign of life. -/
theorem connect_eq {d : Desk} (unasked : d.aggregator.registry.subscriptions = [])
    (channel : Channel) (n : Nat) :
    d.connect channel n = { d with
      readings := d.readings + 1
      aggregator := { d.aggregator with
        writers := d.aggregator.writers.set channel (some n)
        liveness := d.aggregator.liveness.touch channel ⟨d.now, d.timesOfDay d.readings⟩ } } := by
  cases channel with
  | «private» => rfl
  | «public» =>
    have none : d.aggregator.registry.commands = [] := by
      rw [Registry.commands, unasked, List.map_nil]
    simp [connect, reading, Aggregator.onConnect, none, Link.Switchboard.writeAll]

/-- A frame is a sign of life, and may be merged and passed on. -/
theorem receive_eq (d : Desk) (channel : Channel) (f : Frame) :
    ∃ cache passed, d.receive channel f = { d with
      readings := d.readings + 1
      passed
      aggregator := { d.aggregator with
        cache
        liveness := d.aggregator.liveness.touch channel ⟨d.now, d.timesOfDay d.readings⟩ } } := by
  rcases digested : Aggregator.digest d.aggregator.cache channel f with ⟨cache, _ | out⟩
  · exact ⟨cache, d.passed, by simp [receive, reading, Aggregator.onFrame, digested]⟩
  · by_cases muted : d.isMuted = true
    · exact ⟨cache, d.passed, by simp [receive, reading, Aggregator.onFrame, digested, pass, muted]⟩
    · exact ⟨cache, d.passed ++ [out],
        by simp [receive, reading, Aggregator.onFrame, digested, pass, muted]⟩

end Desk

/-! ## Intervals -/

/-- The time between two checks, in milliseconds. -/
def Settings.interval (s : Settings) : Nat := s.heartbeat.intervalSecs.toNat * 1000

/-- The silence after which a channel is probed, in milliseconds. -/
def Settings.staleAfter (s : Settings) : Nat := s.heartbeat.staleAfterSecs.toNat * 1000

theorem Settings.interval_pos {s : Settings} (valid : s.validate = .ok s) : 0 < s.interval := by
  have positive : s.heartbeat.intervalSecs ≠ 0 := by
    intro zero
    simp only [validate, zero] at valid
    split at valid
    · cases valid
    · split at valid <;> cases valid
  have seconds : s.heartbeat.intervalSecs.toNat ≠ 0 := fun zero =>
    positive (UInt64.toNat_inj.mp zero)
  rw [interval]
  omega

/-! ## What the monitor waits for -/

/-- The instant that a monitor waits for, by when it was started, the present instant, how many
monitors there have been and which alarms are set. -/
inductive Alarmed (interval : Nat) (started : Option Nat) (now monitors : Nat) (alarms : Desk.Alarms) :
    Prop where
  /-- It was not started. -/
  | unstarted (never : started = none) (first : monitors = 0) (none : alarms = [])
  /-- It ended since its first check is beyond what the clock can show. -/
  | beyond {t : Nat} (begun : started = some t) (again : monitors ≠ 0) (none : alarms = [])
    (late : Desk.clockEnd ≤ t + interval)
  /-- It waits for a check, whole intervals after its start and within the next interval. -/
  | waiting {t j : Nat} (begun : started = some t) (again : monitors ≠ 0) (positive : 1 ≤ j)
    (one : alarms = [⟨t + j * interval, .monitor 0⟩]) (ahead : now ≤ t + j * interval)
    (soon : t + j * interval ≤ now + interval)

namespace Alarmed

variable {interval now monitors : Nat} {started : Option Nat} {alarms : Desk.Alarms}

/-- The monitor is the only one who waits. -/
theorem alarms_cases (h : Alarmed interval started now monitors alarms) : alarms = [] ∨
    ∃ due, alarms = [⟨due, .monitor 0⟩] ∧ now ≤ due ∧ due ≤ now + interval := by
  cases h with
  | unstarted never first none => exact .inl none
  | beyond begun again none late => exact .inl none
  | waiting begun again positive one ahead soon => exact .inr ⟨_, one, ahead, soon⟩

/-- The next check comes within the interval. -/
theorem due_le (h : Alarmed interval started now monitors alarms) {a : Desk.Alarm}
    (mem : a ∈ alarms) : a.due ≤ now + interval := by
  rcases h.alarms_cases with rfl | ⟨due, rfl, -, soon⟩
  · cases mem
  · obtain rfl := List.mem_singleton.mp mem
    exact soon

/-- Nothing is waited for before there is a monitor. -/
theorem alarms_of_first (h : Alarmed interval started now 0 alarms) : alarms = [] := by
  cases h with
  | unstarted never first none => exact none
  | beyond begun again none late => exact none
  | waiting begun again => exact absurd rfl again

/-- A check that is due is made whole intervals after the start. -/
theorem of_due (h : Alarmed interval started now monitors alarms)
    (due : alarms.goesOnAt now = true) :
    ∃ t j, started = some t ∧ 1 ≤ j ∧ now = t + j * interval ∧ monitors ≠ 0 ∧
      alarms = [⟨now, .monitor 0⟩] := by
  cases h with
  | unstarted never first none => simp [none, Desk.Alarms.goesOnAt] at due
  | beyond begun again none late => simp [none, Desk.Alarms.goesOnAt] at due
  | waiting begun again positive one ahead soon =>
    obtain rfl : _ = now := by simpa [one, Desk.Alarms.goesOnAt] using due
    exact ⟨_, _, begun, positive, rfl, again, one⟩

/-- Time passes, up to the check at most. -/
theorem wait (h : Alarmed interval started now monitors alarms) {ms : Nat}
    (undue : ∀ a ∈ alarms, now + ms ≤ a.due) :
    Alarmed interval started (now + ms) monitors alarms := by
  cases h with
  | unstarted never first none => exact .unstarted never first none
  | beyond begun again none late => exact .beyond begun again none late
  | waiting begun again positive one ahead soon =>
    refine .waiting begun again positive one ?_ ?_
    · exact undue _ (one ▸ List.mem_singleton_self _)
    · omega

/-- After a check the monitor waits for the next one. -/
theorem ring (h : Alarmed interval started now monitors alarms) (due : alarms.goesOnAt now = true) :
    Alarmed interval started now monitors [⟨now + interval, .monitor 0⟩] := by
  obtain ⟨t, j, begun, -, at_check, again, -⟩ := h.of_due due
  have next : t + (j + 1) * interval = now + interval := by
    rw [Nat.succ_mul, ← Nat.add_assoc, at_check]
  refine .waiting (j := j + 1) begun again (Nat.le_add_left ..) ?_ ?_ ?_
  · rw [next]
  · omega
  · omega

end Alarmed

/-! ## What holds at any time -/

namespace Watch

variable {settings : Settings} {w : Watch}

/-- A heartbeat was written to a line after an instant. -/
def Beaten (w : Watch) (n s : Nat) : Prop := ∃ entry ∈ w.log n, entry.2 = .heartbeat ∧ s < entry.1

theorem Beaten.mono {w' : Watch} {n s : Nat} (h : w.Beaten n s) (kept : w.log n ⊆ w'.log n) :
    w'.Beaten n s := by
  obtain ⟨entry, mem, beat⟩ := h
  exact ⟨entry, kept mem, beat⟩

/-- Every channel whose line is open was probed since its last sign of life, or the next check comes
soon enough. -/
def Probed (settings : Settings) (w : Watch) : Prop :=
  ∀ channel n s t, w.writer? channel = some n → w.board.isOpen n = true →
    w.signs.get channel = some s → w.started = some t →
    w.Beaten n s ∨ ∀ a ∈ w.desk.alarms, a.due ≤ max (s + settings.staleAfter) t + settings.interval

/-- What holds of a watched desk at any time. -/
structure Sound (settings : Settings) (w : Watch) : Prop where
  /-- The settings stay. -/
  configured : w.desk.aggregator.settings = settings
  /-- The aggregator is not closed. -/
  unclosed : w.desk.aggregator.isClosed = false
  /-- Nothing is asked for. -/
  unasked : w.desk.aggregator.registry.subscriptions = []
  /-- No links were started. -/
  unlinked : w.desk.links = .both none
  /-- The clock can show the present instant. -/
  shown : w.desk.now < Desk.clockEnd
  /-- The signs of life that the aggregator knows of are those that were seen. -/
  pulses : ∀ channel,
    (w.desk.aggregator.liveness.pulses.get channel).map (fun p => p.last.ms) = w.signs.get channel
  /-- Signs of life are not ahead of the clock. -/
  past : ∀ channel s, w.signs.get channel = some s → s ≤ w.desk.now
  /-- A channel that has a line showed a sign of life, and the line was laid. -/
  laid : ∀ channel n, w.writer? channel = some n →
    n < w.board.lines.length ∧ ∃ s, w.signs.get channel = some s
  /-- The monitor waits. -/
  alarmed : Alarmed settings.interval w.started w.desk.now w.desk.monitors w.desk.alarms
  /-- No channel is left alone for too long. -/
  probed : w.Probed settings

theorem sound_fresh (settings : Settings) (ids : Nat → String) (timesOfDay : Nat → String) :
    (fresh settings ids timesOfDay).Sound settings where
  configured := rfl
  unclosed := rfl
  unasked := rfl
  unlinked := rfl
  shown := (by decide : 0 < Desk.clockEnd)
  pulses channel := by cases channel <;> rfl
  past channel s sign := by cases channel <;> cases sign
  laid channel n writer := by cases channel <;> cases writer
  alarmed := .unstarted rfl rfl rfl
  probed channel n s t writer := by cases channel <;> cases writer

/-! ## Lines and channels -/

/-- Lines are laid, emptied or cut. -/
theorem Sound.lines (h : w.Sound settings) (board : Link.Switchboard)
    {log : Nat → List (Nat × Command)} (length : w.board.lines.length ≤ board.lines.length)
    (opened : ∀ n < w.board.lines.length, board.isOpen n = true → w.board.isOpen n = true)
    (kept : ∀ n, w.log n ⊆ log n) :
    Sound settings { w with desk := w.desk.onBoard fun _ => board, log } where
  configured := h.configured
  unclosed := h.unclosed
  unasked := h.unasked
  unlinked := h.unlinked
  shown := h.shown
  pulses := h.pulses
  past := h.past
  laid channel n writer := by
    obtain ⟨lt, sign⟩ := h.laid channel n writer
    exact ⟨Nat.lt_of_lt_of_le lt length, sign⟩
  alarmed := h.alarmed
  probed channel n s t writer live sign started := by
    have before := opened n (h.laid channel n writer).1 live
    exact (h.probed channel n s t writer before sign started).imp_left (·.mono (kept n))

/-- A channel shows a sign of life, perhaps with a line that was laid. -/
theorem Sound.sign (h : w.Sound settings) {channel : Channel} {writers : ByChannel (Option Nat)}
    {cache : Cache} {passed : List Frame} {readings : Nat} {stamp : String}
    {log : Nat → List (Nat × Command)}
    (kept : ∀ n, w.log n ⊆ log n)
    (given : ∀ c n, writers.get c = some n →
      w.writer? c = some n ∨ c = channel ∧ n < w.board.lines.length) :
    Sound settings { w with
      desk := { w.desk with
        readings
        passed
        aggregator := { w.desk.aggregator with
          writers
          cache
          liveness := w.desk.aggregator.liveness.touch channel ⟨w.desk.now, stamp⟩ } }
      signs := w.signs.set channel (some w.desk.now)
      log } where
  configured := h.configured
  unclosed := h.unclosed
  unasked := h.unasked
  unlinked := h.unlinked
  shown := h.shown
  pulses c := by
    by_cases own : c = channel
    · subst own
      simp [Liveness.touch]
    · simpa [Liveness.touch, ByChannel.get_set_ne _ _ own] using h.pulses c
  past c s sign := by
    by_cases own : c = channel
    · subst own
      rw [ByChannel.get_set_self] at sign
      exact Nat.le_of_eq (Option.some.inj sign).symm
    · rw [ByChannel.get_set_ne _ _ own] at sign
      exact h.past c s sign
  laid c n writer := by
    by_cases own : c = channel
    · subst own
      refine ⟨?_, _, ByChannel.get_set_self ..⟩
      rcases given c n writer with old | ⟨-, lt⟩
      · exact (h.laid c n old).1
      · exact lt
    · have old := (given c n writer).resolve_right fun new => own new.1
      obtain ⟨lt, s, sign⟩ := h.laid c n old
      exact ⟨lt, s, (ByChannel.get_set_ne _ _ own).trans sign⟩
  alarmed := h.alarmed
  probed c n s t writer live sign started := by
    by_cases own : c = channel
    · -- The next check comes within the interval, counted from the sign of life.
      subst own
      rw [ByChannel.get_set_self] at sign
      obtain rfl := Option.some.inj sign
      right
      intro a mem
      have soon : a.due ≤ w.desk.now + settings.interval := h.alarmed.due_le mem
      omega
    · rw [ByChannel.get_set_ne _ _ own] at sign
      have old := (given c n writer).resolve_right fun new => own new.1
      exact (h.probed c n s t old live sign started).imp_left (·.mono (kept n))

/-- A channel fails. -/
theorem Sound.fail (h : w.Sound settings) (channel : Channel) (fault : Fault) :
    (w.next (.fail channel fault)).Sound settings where
  configured := h.configured
  unclosed := h.unclosed
  unasked := h.unasked
  unlinked := h.unlinked
  shown := h.shown
  pulses := h.pulses
  past := h.past
  laid c n writer := by
    by_cases own : c = channel
    · subst own
      cases (ByChannel.get_set_self ..).symm.trans writer
    · exact h.laid c n ((ByChannel.get_set_ne _ _ own).symm.trans writer)
  alarmed := h.alarmed
  probed c n s t writer live sign started := by
    by_cases own : c = channel
    · subst own
      cases (ByChannel.get_set_self ..).symm.trans writer
    · have old : w.writer? c = some n := (ByChannel.get_set_ne _ _ own).symm.trans writer
      exact (h.probed c n s t old live sign started).imp_left (·.mono (w.subset_log_next _ n))

/-! ## Time -/

/-- Nothing happens. -/
theorem Sound.stay (h : w.Sound settings) {deed : Deed} (desk : w.desk.does deed = w.desk)
    (started : w.startedAfter deed = w.started) (signs : w.signsAfter deed = w.signs) :
    (w.next deed).Sound settings := by
  have kept := w.subset_log_next deed
  rw [next] at kept ⊢
  rw [desk, started, signs]
  exact h.lines w.board (Nat.le_refl _) (fun _ _ => id) kept

/-- Time passes up to the next check at most. -/
theorem Sound.wait (h : w.Sound settings) {ms : Nat} (can : w.desk.CanWait ms)
    {log : Nat → List (Nat × Command)} (kept : ∀ n, w.log n ⊆ log n) :
    Sound settings { w with desk := { w.desk with now := w.desk.now + ms }, log } where
  configured := h.configured
  unclosed := h.unclosed
  unasked := h.unasked
  unlinked := h.unlinked
  shown := can.1
  pulses := h.pulses
  past c s sign := Nat.le_add_right_of_le (h.past c s sign)
  laid := h.laid
  alarmed := h.alarmed.wait can.2
  probed c n s t writer live sign started :=
    (h.probed c n s t writer live sign started).imp_left (·.mono (kept n))

end Watch

namespace Desk

/-- The first check comes after the interval, unless that is beyond what the clock can show. -/
theorem firstCheck?_cases {d : Desk} (positive : 0 < d.aggregator.settings.interval) :
    d.firstCheck? = some (d.now + d.aggregator.settings.interval) ∨
      d.firstCheck? = none ∧ clockEnd ≤ d.now + d.aggregator.settings.interval := by
  rw [Settings.interval] at positive ⊢
  by_cases fits : 0 < d.aggregator.settings.heartbeat.intervalSecs.toNat ∧
      d.now / 1000 + d.aggregator.settings.heartbeat.intervalSecs.toNat < Link.Backoff.clockLimit
  · exact .inl (if_pos fits)
  · refine .inr ⟨if_neg fits, ?_⟩
    unfold clockEnd
    generalize Link.Backoff.clockLimit = limit at fits ⊢
    omega

/-- The monitor of an aggregator that is not closed waits for its first check, if there is one. -/
theorem monitor_fst {d : Desk} (unclosed : d.aggregator.isClosed = false) :
    d.monitor.1 = { d with
      monitors := d.monitors + 1
      alarms := d.firstCheck?.elim d.alarms fun due => d.alarms.set ⟨due, .monitor d.monitors⟩ } := by
  have same : firstCheck? { d with monitors := d.monitors + 1 } = d.firstCheck? := rfl
  simp only [monitor, same]
  cases d.firstCheck? with
  | none => rfl
  | some due => simp only [unclosed]; rfl

end Desk

namespace Watch

variable {settings : Settings} {w : Watch}

/-- The monitor is started. -/
theorem Sound.monitor (h : w.Sound settings) (positive : 0 < settings.interval) :
    (w.next .monitor).Sound settings := by
  by_cases first : w.desk.monitors = 0
  · have none : w.desk.alarms = [] := Alarmed.alarms_of_first (first ▸ h.alarmed)
    have begun : w.next .monitor =
        { desk := { w.desk with
            monitors := 1
            alarms := w.desk.firstCheck?.elim [] fun due => [⟨due, .monitor 0⟩] }
          started := some w.desk.now
          signs := w.signs
          log := (w.next .monitor).log } := by
      simp [next, Desk.does, startedAfter, signsAfter, Desk.monitor_fst h.unclosed, first, none,
        Desk.Alarms.set]
    have due := Desk.firstCheck?_cases (h.configured.symm ▸ positive)
    rw [h.configured] at due
    rw [begun]
    refine ⟨h.configured, h.unclosed, h.unasked, h.unlinked, h.shown, h.pulses, h.past, h.laid, ?_, ?_⟩
    · rcases due with some | ⟨none, late⟩
      · refine .waiting (j := 1) rfl Nat.one_ne_zero (Nat.le_refl _) ?_ ?_ ?_
        · simp [some]
        · exact Nat.le_add_right ..
        · rw [Nat.one_mul]
      · exact .beyond rfl Nat.one_ne_zero (by simp [none]) late
    · intro c n s t writer live sign started
      right
      intro a mem
      obtain rfl := Option.some.inj started
      rcases due with some | ⟨none, -⟩
      · rw [some] at mem
        obtain rfl := List.mem_singleton.mp mem
        show w.desk.now + settings.interval ≤ _
        omega
      · rw [none] at mem
        cases mem
  · exact h.stay (if_neg first) (if_neg first) rfl

/-! ## Checks -/

/-- The next alarm is due. -/
def IsDue (w : Watch) : Prop := w.desk.alarms.goesOnAt w.desk.now = true

theorem does_ring_of_not_due (undue : ¬ w.IsDue) : w.desk.does .ring = w.desk := by
  rw [IsDue, Desk.Alarms.goesOnAt] at undue
  rw [Desk.does]
  split
  · rfl
  · next a rest alarms =>
    refine if_neg fun due => undue ?_
    simp [alarms, due]

/-- A check probes the channels and waits for the next one. -/
theorem Sound.does_ring (h : w.Sound settings) (due : w.IsDue) :
    w.desk.does .ring = { w.desk with
      alarms := [⟨w.desk.now + settings.interval, .monitor 0⟩]
      aggregator := (w.desk.aggregator.probe w.desk.now).1 } := by
  obtain ⟨-, -, -, -, -, -, alarms⟩ := h.alarmed.of_due due
  obtain ⟨board, probed⟩ := (w.desk.aggregator.queued_probe w.desk.now).rest
  simp [Desk.does, alarms, Desk.wake, Desk.wakeMonitor, Desk.check, Desk.sleep, Desk.interval, probed,
    h.configured, Settings.interval, Desk.Alarms.set]

/-- A channel has been silent for longer than the limit, and could be told. -/
def IsSilent (settings : Settings) (w : Watch) (channel : Channel) (n : Nat) : Prop :=
  w.writer? channel = some n ∧ w.board.isOpen n = true ∧
    ∃ s, w.signs.get channel = some s ∧ s + settings.staleAfter < w.desk.now

/-- The aggregator takes a channel to be stale if it was seen to be silent. -/
theorem Sound.isStale_iff (h : w.Sound settings) {channel : Channel} {s : Nat}
    (sign : w.signs.get channel = some s) :
    w.desk.aggregator.liveness.isStale channel w.desk.now w.desk.aggregator.staleAfter = true ↔
      s + settings.staleAfter < w.desk.now := by
  obtain ⟨p, pulse, rfl⟩ := Option.map_eq_some_iff.mp ((h.pulses channel).trans sign)
  have limit : w.desk.aggregator.staleAfter = settings.staleAfter := by
    rw [Aggregator.staleAfter, h.configured, Settings.staleAfter]
  rw [Liveness.isStale, pulse, limit, Option.all_some, decide_eq_true_iff]
  omega

/-- A check writes heartbeats to the silent channels. -/
theorem Sound.mem_written_ring (h : w.Sound settings) (due : w.IsDue) {n : Nat} {c : Command} :
    c ∈ w.written .ring n ↔ c = .heartbeat ∧ ∃ channel, w.IsSilent settings channel n := by
  rw [written, h.does_ring due, Link.Switchboard.added_of_append
    ((w.desk.aggregator.queued_probe w.desk.now).queuedOn n), List.mem_flatMap]
  simp only [Aggregator.mem_beatsOf]
  constructor
  · rintro ⟨channel, -, rfl, stale, writer, live⟩
    obtain ⟨-, s, sign⟩ := h.laid channel n writer
    exact ⟨rfl, channel, writer, live, s, sign, (h.isStale_iff sign).mp stale⟩
  · rintro ⟨rfl, channel, writer, live, s, sign, silent⟩
    exact ⟨channel, by cases channel <;> decide, rfl, (h.isStale_iff sign).mpr silent, writer, live⟩

/-- A check comes in time for every channel that it does not probe. -/
theorem Sound.ring (h : w.Sound settings) : (w.next .ring).Sound settings := by
  by_cases due : w.IsDue
  · have rung : w.next .ring =
        { w with
          desk := { w.desk with
            alarms := [⟨w.desk.now + settings.interval, .monitor 0⟩]
            aggregator := (w.desk.aggregator.probe w.desk.now).1 }
          log := (w.next .ring).log } := by
      rw [next, h.does_ring due]
      rfl
    have queued := w.desk.aggregator.queued_probe w.desk.now
    have isOpen := queued.isOpen
    have length := queued.length
    obtain ⟨board, probed⟩ := queued.rest
    rw [probed] at isOpen length rung
    rw [rung]
    refine ⟨h.configured, h.unclosed, h.unasked, h.unlinked, h.shown, h.pulses, h.past, ?_, ?_, ?_⟩
    · intro c n writer
      obtain ⟨lt, sign⟩ := h.laid c n writer
      exact ⟨length.symm ▸ lt, sign⟩
    · exact h.alarmed.ring due
    · intro c n s t writer live sign started
      by_cases silent : s + settings.staleAfter < w.desk.now
      · left
        have beat : Command.heartbeat ∈ w.written .ring n :=
          (h.mem_written_ring due).mpr
            ⟨rfl, c, writer, (isOpen n).symm.trans live, s, sign, silent⟩
        refine ⟨(w.desk.now, .heartbeat), ?_, rfl, ?_⟩
        · exact List.mem_append_right _ (List.mem_map_of_mem beat)
        · show s < w.desk.now
          omega
      · right
        intro a mem
        obtain rfl := List.mem_singleton.mp mem
        show w.desk.now + settings.interval ≤ _
        omega
  · exact h.stay (does_ring_of_not_due due) rfl rfl

/-! ## Runs -/

/-- Something happens. -/
theorem Sound.next (h : w.Sound settings) (positive : 0 < settings.interval) (deed : Deed) :
    (w.next deed).Sound settings := by
  have kept := w.subset_log_next deed
  cases deed with
  | lay channel =>
    refine h.lines ((w.board.attach channel).1) ?_ ?_ kept
    · simp [Link.Switchboard.attach]
    · intro n lt
      simp [Link.Switchboard.attach, Link.Switchboard.isOpen, Link.Switchboard.open?,
        List.getElem?_append_left lt]
  | connect channel n =>
    by_cases laid : n < w.board.lines.length
    · have up := w.desk.connect_eq h.unasked channel n
      rw [Watch.next, Desk.does, if_pos laid, up, signsAfter, if_pos laid]
      refine h.sign kept ?_
      intro c m writer
      by_cases own : c = channel
      · subst own
        obtain rfl := Option.some.inj ((ByChannel.get_set_self ..).symm.trans writer)
        exact .inr ⟨rfl, laid⟩
      · exact .inl ((ByChannel.get_set_ne _ _ own).symm.trans writer)
    · exact h.stay (if_neg laid) rfl (if_neg laid)
  | receive channel f =>
    obtain ⟨cache, passed, received⟩ := w.desk.receive_eq channel f
    rw [Watch.next, Desk.does, received]
    exact h.sign kept fun c n writer => .inl writer
  | fail channel fault => exact h.fail channel fault
  | hangUp n =>
    refine h.lines (w.board.hangUp n) ?_ ?_ kept
    · simp [Link.Switchboard.hangUp]
    · intro m _ opened
      exact Link.Switchboard.isOpen_of_modify (by simp) opened
  | drain n =>
    refine h.lines ((w.board.drain n).1) ?_ ?_ kept
    · simp [Link.Switchboard.drain]
    · intro m _ opened
      exact Link.Switchboard.isOpen_of_modify (f := fun line => { line with queued := [] })
        (fun _ => id) opened
  | monitor => exact h.monitor positive
  | wait ms =>
    by_cases can : w.desk.CanWait ms
    · rw [Watch.next, Desk.does, if_pos can]
      exact h.wait can kept
    · exact h.stay (if_neg can) rfl rfl
  | ring => exact h.ring

theorem Sound.run (h : w.Sound settings) (positive : 0 < settings.interval) (deeds : List Deed) :
    (w.run deeds).Sound settings := by
  induction deeds generalizing w with
  | nil => exact h
  | cons deed rest ih => exact ih (h.next positive deed)

theorem sound_after (valid : settings.validate = .ok settings) (ids : Nat → String)
    (timesOfDay : Nat → String) (deeds : List Deed) :
    (after settings ids timesOfDay deeds).Sound settings :=
  (sound_fresh settings ids timesOfDay).run (Settings.interval_pos valid) deeds

/-- Nothing but a check writes to a line. -/
theorem Sound.written_eq_nil (h : w.Sound settings) {deed : Deed}
    (other : deed = .ring → ¬ w.IsDue) (n : Nat) : w.written deed n = [] := by
  have same (board : (w.desk.does deed).aggregator.board = w.board) : w.written deed n = [] := by
    rw [written, board, Link.Switchboard.added_self]
  cases deed with
  | lay channel => exact Link.Switchboard.added_attach ..
  | connect channel m =>
    apply same
    rw [Desk.does]
    split
    · rw [w.desk.connect_eq h.unasked]
    · rfl
  | receive channel f =>
    obtain ⟨cache, passed, received⟩ := w.desk.receive_eq channel f
    exact same (by rw [Desk.does, received])
  | fail channel fault => exact same rfl
  | hangUp m => exact Link.Switchboard.added_modify (fun line => Nat.zero_le _) ..
  | drain m => exact Link.Switchboard.added_modify (fun line => Nat.zero_le _) ..
  | monitor =>
    apply same
    rw [Desk.does]
    split
    · rw [Desk.monitor_fst h.unclosed]
    · rfl
  | wait ms =>
    apply same
    rw [Desk.does]
    split <;> rfl
  | ring => exact same (congrArg (·.aggregator.board) (does_ring_of_not_due (other rfl)))

end Watch

end MarketStream
