import MarketStream.Proofs.Desk.Watch

/-!
# Silence is noticed in time

What the monitor of a desk does about silent channels, whatever the channels do meanwhile, and that
letting time pass on a desk is one way for this to happen.

* `silent_channels_probed` — when heartbeats are written, to whom, and when at the latest;
* `Desk.run_of_due`, `Desk.run_of_undue` — how alarms go off;
* `Watch.advance_eq` — letting time pass is waiting and checking.
-/

namespace MarketStream

/-- **Silent channels are probed in time, and active ones never.** After anything that happened to a
desk without subscriptions whose settings are valid and whose monitor was started at most once: what
happens next writes to a line only if it is a check, and then it writes heartbeats, exactly to the open
lines of those channels that have been silent for longer than the limit; a check is due only some whole
intervals, at least one, after the monitor was started; the aggregator takes for signs of life what was
seen of each channel, its lines coming up and its frames, and no probing; and a channel that has an open
line was probed on it since its last sign of life once the interval has passed after the limit, counted
from that sign, or after the start of the monitor. -/
theorem silent_channels_probed {settings : Settings} (valid : settings.validate = .ok settings)
    (ids : Nat → String) (timesOfDay : Nat → String) (deeds : List Deed) :
    let w := Watch.after settings ids timesOfDay deeds
    (∀ deed n c, c ∈ w.written deed n ↔
      deed = .ring ∧ w.IsDue ∧ c = .heartbeat ∧ ∃ channel, w.IsSilent settings channel n) ∧
    (w.IsDue → ∃ t j, w.started = some t ∧ 1 ≤ j ∧ w.desk.now = t + j * settings.interval) ∧
    (∀ channel, (w.desk.aggregator.liveness.pulses.get channel).map (fun p => p.last.ms)
      = w.signs.get channel) ∧
    (∀ channel n s t, w.writer? channel = some n → w.board.isOpen n = true →
      w.signs.get channel = some s → w.started = some t →
      max (s + settings.staleAfter) t + settings.interval < w.desk.now → w.Beaten n s) := by
  intro w
  have h : w.Sound settings := Watch.sound_after valid ids timesOfDay deeds
  refine ⟨?_, ?_, h.pulses, ?_⟩
  · intro deed n c
    by_cases check : deed = .ring ∧ w.IsDue
    · obtain ⟨rfl, due⟩ := check
      rw [h.mem_written_ring due]
      constructor
      · intro beats
        exact ⟨rfl, due, beats⟩
      · rintro ⟨-, -, beats⟩
        exact beats
    · rw [h.written_eq_nil fun ring due => check ⟨ring, due⟩]
      constructor
      · rintro ⟨⟩
      · rintro ⟨ring, due, -⟩
        exact absurd ⟨ring, due⟩ check
  · intro due
    obtain ⟨t, j, begun, positive, at_check, -, -⟩ := h.alarmed.of_due due
    exact ⟨t, j, begun, positive, at_check⟩
  · intro channel n s t writer live sign started late
    refine (h.probed channel n s t writer live sign started).resolve_right fun timely => ?_
    cases h.alarmed with
    | unstarted never => simp [never] at started
    | beyond begun again none end_near =>
      obtain rfl := Option.some.inj (begun.symm.trans started)
      have shown := h.shown
      omega
    | waiting begun again positive one ahead soon =>
      have due := timely _ (one ▸ List.mem_singleton_self _)
      exact absurd (Nat.le_trans ahead due) (Nat.not_le_of_lt late)

/-- With the standard settings a channel that comes up and then stays silent is probed at the second
check of a monitor that was started with it, when it has been silent for longer than the limit. -/
theorem quiet_channel_probed :
    let deeds : List Deed := [.lay .public, .connect .public 0, .monitor, .wait 10000, .ring,
      .wait 10000, .ring, .wait 1]
    (Watch.after .standard (fun _ => "") (fun _ => "") deeds).Beaten 0 0 := by
  intro deeds
  have valid : Settings.standard.validate = .ok .standard := by decide
  obtain ⟨-, -, -, probed⟩ := silent_channels_probed valid (fun _ => "") (fun _ => "") deeds
  exact probed .public 0 0 0 (by decide +kernel) (by decide +kernel) (by decide +kernel)
    (by decide +kernel) (by decide +kernel)

/-! ## Letting time pass -/

/-- Time passes, or a check is made. -/
def Deed.PassesTime : Deed → Prop
  | .wait _ | .ring => True
  | .lay _ | .connect .. | .receive .. | .fail .. | .hangUp _ | .drain _ | .monitor => False

namespace Desk

variable {d : Desk} {limit : Nat}

/-- Where no links were started, nothing is written for them. -/
theorem flush_of_unlinked (unlinked : d.links = .both none) : d.flush = d := by
  have still (channel : Channel) : d.flushLink channel = d := by
    rw [flushLink, unlinked]
    cases channel <;> rfl
  rw [flush, Channel.all, List.foldl_cons, still, List.foldl_cons, still, List.foldl_nil]

/-- No alarm goes off before it is due. -/
theorem run_of_undue (undue : ∀ a ∈ d.alarms, limit < a.due) (fuel : Nat) :
    Desk.run limit fuel d = d := by
  cases fuel with
  | zero => rfl
  | succ fuel =>
    rw [Desk.run]
    split
    · rfl
    · next a rest alarms =>
      have late := undue a (alarms ▸ List.mem_cons_self)
      exact if_neg (Nat.not_le_of_lt late)

/-- The next alarm goes off once the clock has come to it. -/
theorem run_of_due {a : Alarm} {rest : Alarms} (alarms : d.alarms = a :: rest) (due : a.due ≤ limit)
    (unlinked : (does { d with now := a.due } .ring).links = .both none) (fuel : Nat) :
    Desk.run limit (fuel + 1) d = Desk.run limit fuel (does { d with now := a.due } .ring) := by
  have woken : wake { d with alarms := rest, now := a.due } a.sleeper
      = does { d with now := a.due } .ring := by
    simp [does, alarms]
  rw [Desk.run]
  split
  · next none =>
    rw [none] at alarms
    cases alarms
  · next b others same =>
    obtain ⟨rfl, rfl⟩ := List.cons.inj (alarms.symm.trans same)
    rw [if_pos due]
    simp only [woken, flush_of_unlinked unlinked, ite_self]

end Desk

namespace Watch

variable {settings : Settings} {w : Watch}

/-- Time may pass up to an instant before which no alarm is due. -/
theorem desk_next_wait {instant : Nat} (from_now : w.desk.now ≤ instant)
    (shown : instant < Desk.clockEnd) (undue : ∀ a ∈ w.desk.alarms, instant ≤ a.due) :
    (w.next (.wait (instant - w.desk.now))).desk = { w.desk with now := instant } := by
  have sum : w.desk.now + (instant - w.desk.now) = instant := Nat.add_sub_of_le from_now
  have can : w.desk.CanWait (instant - w.desk.now) := by
    rw [Desk.CanWait, sum]
    exact ⟨shown, undue⟩
  rw [Watch.next, Desk.does, if_pos can, sum]

/-- The next check is waited for and made. -/
theorem Sound.next_check (h : w.Sound settings) (positive : 0 < settings.interval) {due : Nat}
    (one : w.desk.alarms = [⟨due, .monitor 0⟩]) (ahead : w.desk.now ≤ due)
    (shown : due < Desk.clockEnd) :
    let after := (w.next (.wait (due - w.desk.now))).next .ring
    after.desk = Desk.does { w.desk with now := due } .ring ∧ after.desk.now = due ∧
      after.desk.alarms = [⟨due + settings.interval, .monitor 0⟩] := by
  have waited := desk_next_wait (w := w) ahead shown (by simp [one])
  have sound := h.next positive (.wait (due - w.desk.now))
  generalize w.next (.wait (due - w.desk.now)) = waiting at waited sound
  have now : waiting.desk.now = due := by rw [waited]
  have isDue : waiting.IsDue := by simp [IsDue, Desk.Alarms.goesOnAt, waited, one]
  have rung : (waiting.next .ring).desk = _ := sound.does_ring isDue
  refine ⟨?_, ?_, ?_⟩
  · rw [Watch.next, waited]
  · rw [rung, now]
  · rw [rung, now]

/-- Alarms that go off one after another are checks that are waited for. -/
theorem Sound.run_eq (h : w.Sound settings) (positive : 0 < settings.interval) {limit fuel : Nat}
    (from_now : w.desk.now ≤ limit) (shown : limit < Desk.clockEnd)
    (enough : ∀ a ∈ w.desk.alarms, limit < a.due + fuel) :
    ∃ deeds, (∀ deed ∈ deeds, deed.PassesTime) ∧
      (w.run deeds).desk = { Desk.run limit fuel w.desk with now := limit } := by
  induction fuel generalizing w with
  | zero =>
    refine ⟨[.wait (limit - w.desk.now)], by simp [Deed.PassesTime], ?_⟩
    exact desk_next_wait from_now shown fun a mem => Nat.le_of_lt (enough a mem)
  | succ fuel ih =>
    by_cases undue : ∀ a ∈ w.desk.alarms, limit < a.due
    · refine ⟨[.wait (limit - w.desk.now)], by simp [Deed.PassesTime], ?_⟩
      rw [Desk.run_of_undue undue]
      exact desk_next_wait from_now shown fun a mem => Nat.le_of_lt (undue a mem)
    obtain ⟨due, one, ahead, soon⟩ :
        ∃ due, w.desk.alarms = [⟨due, .monitor 0⟩] ∧ w.desk.now ≤ due ∧ due ≤ limit := by
      rcases h.alarmed.alarms_cases with none | ⟨due, one, ahead, -⟩
      · simp [none] at undue
      · exact ⟨due, one, ahead, by simpa [one] using undue⟩
    -- The fuel lasts, since the alarm that is set next is later by an interval.
    have later := (h.next positive (.wait (due - w.desk.now))).next positive .ring
    obtain ⟨desk, now, alarms⟩ := h.next_check positive one ahead (Nat.lt_of_le_of_lt soon shown)
    have slack : limit < due + (fuel + 1) := enough _ (one ▸ List.mem_singleton_self _)
    have lasts : limit < due + settings.interval + fuel := by omega
    obtain ⟨deeds, passes, done⟩ := ih later (le_of_eq_of_le now soon) (by simpa [alarms] using lasts)
    refine ⟨.wait (due - w.desk.now) :: .ring :: deeds, by simpa [Deed.PassesTime] using passes, ?_⟩
    rw [Desk.run_of_due one soon (desk ▸ later.unlinked), ← desk]
    exact done

/-- **Letting time pass is waiting and checking.** At any time, a desk that lets time pass, as far as the
clock can show it, waits and checks in turns. -/
theorem advance_eq (valid : settings.validate = .ok settings) (ids : Nat → String)
    (timesOfDay : Nat → String) (deeds : List Deed) (ms : Nat) :
    let w := after settings ids timesOfDay deeds
    w.desk.now + ms < Desk.clockEnd → ∃ more, (∀ deed ∈ more, deed.PassesTime) ∧
      (w.run more).desk = w.desk.advance ms := by
  intro w shown
  have h : w.Sound settings := sound_after valid ids timesOfDay deeds
  refine h.run_eq (Settings.interval_pos valid) (Nat.le_add_right ..) shown fun a mem => ?_
  rcases h.alarmed.alarms_cases with none | ⟨due, one, ahead, -⟩
  · rw [none] at mem
    cases mem
  · have alone : w.desk.ahead .private = 0 ∧ w.desk.ahead .public = 0 := by
      simp [Desk.ahead, h.unlinked, ByChannel.both, ByChannel.get]
    rw [one] at mem ⊢
    obtain rfl := List.mem_singleton.mp mem
    simp only [Channel.all, List.foldl_cons, List.foldl_nil, alone, List.length_singleton]
    omega

end Watch

end MarketStream
