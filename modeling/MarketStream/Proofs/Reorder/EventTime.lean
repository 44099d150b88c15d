import MarketStream.Proofs.Json.Scalar
import MarketStream.Proofs.Reorder.Holding

/-!
# When a time is honoured

The time of an event is read from a payload together with two more members, and as a whole: where
one of these cannot be read, the time of the quote is lost with it, and the frame is given the
newest time instead. So a window honours the time of a quote in all its states exactly if each of
the two others is a whole number or left out.

* `Gives`, `Says`, `Fits` — what an object has under a name;
* `EventTime.read?_eq_some_iff` — what is read of an event;
* `OthersFit` — the time of the quote can be read; `stamp_time_of_othersFit`,
  `stamp_of_not_othersFit` — the time a frame is given;
* `DelayWindow.Honours` — a window treats a frame as having a time;
* `time_honoured_iff` — when it does.
-/

namespace MarketStream.Reorder

open Json (Input)
open Sequencer (Move)

/-! ## What a payload says -/

/-- An object gives a whole number under a name: one member has the name, and the number is its
value. -/
def Gives (parts : List (String × Input)) (name : String) (n : Int64) : Prop :=
  ∃ text, (parts.filter fun part => part.1 == name) = [(name, text)] ∧
    Json.readFlat? Json.roomyField text = some (.ofInt64 n)

/-- An object says a whole number under a name: it gives it, or no member has the name and the
number is zero. -/
def Says (parts : List (String × Input)) (name : String) (n : Int64) : Prop :=
  Gives parts name n ∨ (parts.filter fun part => part.1 == name) = [] ∧ n = 0

/-- What stands under a name, if anything does, is one whole number. -/
def Fits (parts : List (String × Input)) (name : String) : Prop := ∃ n, Says parts name n

/-- What stands beside the time of a quote can be read with it. -/
def OthersFit (parts : List (String × Input)) : Prop :=
  Fits parts "trade_timestamp" ∧ Fits parts "turnover_volume"

variable {parts : List (String × Input)} {name : String} {n : Int64}

/-- At most one member has a name under which an object says a number. -/
theorem Says.occurrences_le_one (h : Says parts name n) : Json.occurrences name parts ≤ 1 := by
  rw [Json.occurrences]
  rcases h with ⟨text, only, -⟩ | ⟨nothing, -⟩
  · rw [only]
    exact Nat.le_refl _
  · rw [nothing]
    exact Nat.zero_le _

/-- A field that is zero if left out is what the object says. -/
theorem wholeOr_eq_some_iff {names : List String} {r : Json.Fields}
    (fields : Json.namedFields? names parts = some r) (declared : name ∈ names) :
    r.wholeOr name = some n ↔ Says parts name n := by
  have once := (Json.namedFields?_eq_some_iff.mp fields).1 name declared
  have field := Json.field?_namedFields? fields declared
  rw [lookup_eq_head?_filter] at field
  rw [Json.Fields.wholeOr, Json.Fields.orElse, field, Says, Gives]
  rw [Json.occurrences] at once
  cases there : parts.filter fun part => part.1 == name with
  | nil => simp [eq_comm]
  | cons part rest =>
    have same : part.1 = name := by
      have mem : part ∈ parts.filter fun part => part.1 == name := there ▸ List.mem_cons_self
      exact beq_iff_eq.mp (List.mem_filter.mp mem).2
    obtain rfl : rest = [] := by
      rw [there] at once
      exact List.length_eq_zero_iff.mp (Nat.le_zero.mp (Nat.le_of_succ_le_succ once))
    obtain ⟨_, text⟩ := part
    obtain rfl := same
    simpa using Json.int64?_eq_some_iff Json.roomyField

/-- The event time of an object is what it says under the three names, if it says a whole number
or nothing under each. -/
theorem EventTime.read?_eq_some_iff {input : Input} (object : Json.members? input = some parts)
    {e : EventTime} : EventTime.read? input = some e ↔
      Says parts "tick_timestamp" e.tick ∧ Says parts "trade_timestamp" e.trade ∧
        Says parts "turnover_volume" e.volume := by
  have fields : Json.fields? ["tick_timestamp", "trade_timestamp", "turnover_volume"] input
      = Json.namedFields? ["tick_timestamp", "trade_timestamp", "turnover_volume"] parts := by
    rw [Json.fields?, object]
  constructor
  · intro read
    obtain ⟨r, given, read⟩ := Option.bind_eq_some_iff.mp read
    obtain ⟨tick, ht, read⟩ := Option.bind_eq_some_iff.mp read
    obtain ⟨trade, hr, read⟩ := Option.bind_eq_some_iff.mp read
    obtain ⟨volume, hv, read⟩ := Option.bind_eq_some_iff.mp read
    obtain rfl := Option.some.inj read
    rw [fields] at given
    exact ⟨(wholeOr_eq_some_iff given (by simp)).mp ht,
      (wholeOr_eq_some_iff given (by simp)).mp hr, (wholeOr_eq_some_iff given (by simp)).mp hv⟩
  · rintro ⟨tick, trade, volume⟩
    have once : ∀ name ∈ ["tick_timestamp", "trade_timestamp", "turnover_volume"],
        Json.occurrences name parts ≤ 1 := by
      simp [tick.occurrences_le_one, trade.occurrences_le_one, volume.occurrences_le_one]
    have given := Json.namedFields?_eq_some_iff.mpr ⟨once, rfl⟩
    exact Json.read_then (fields.trans given) <|
      Json.read_then ((wholeOr_eq_some_iff given (by simp)).mpr tick) <|
      Json.read_then ((wholeOr_eq_some_iff given (by simp)).mpr trade) <|
      Json.read_then ((wholeOr_eq_some_iff given (by simp)).mpr volume) rfl

/-! ## The time a frame is given -/

variable {f : Frame} {tick : Int64}

/-- The time of the quote, if what stands beside it fits. -/
theorem stamp_time_of_othersFit (object : f.payload?.bind Json.members? = some parts)
    (given : Gives parts "tick_timestamp" tick) (positive : 0 < tick.toInt)
    (fits : OthersFit parts) (newest : Int) : (stamp newest f).time = tick.toInt := by
  obtain ⟨input, payload, object⟩ := Option.bind_eq_some_iff.mp object
  obtain ⟨⟨trade, saysTrade⟩, volume, saysVolume⟩ := fits
  have read : EventTime.read? input = some ⟨tick, trade, volume⟩ :=
    (EventTime.read?_eq_some_iff object).mpr ⟨.inl given, saysTrade, saysVolume⟩
  rw [stamp, payload, Option.bind_some, read]
  exact if_pos positive

/-- The newest time, without a volume, if it does not. -/
theorem stamp_of_not_othersFit (object : f.payload?.bind Json.members? = some parts)
    (mistyped : ¬ OthersFit parts) (newest : Int) : stamp newest f = ⟨f, newest, 0⟩ := by
  obtain ⟨input, payload, object⟩ := Option.bind_eq_some_iff.mp object
  have unread : EventTime.read? input = none := by
    refine Option.eq_none_iff_forall_ne_some.mpr fun e read => mistyped ?_
    obtain ⟨-, trade, volume⟩ := (EventTime.read?_eq_some_iff object).mp read
    exact ⟨⟨_, trade⟩, ⟨_, volume⟩⟩
  rw [stamp, payload, Option.bind_some, unread]

/-! ## Times that are honoured -/

namespace DelayWindow

variable {w : DelayWindow}

/-- A window honours a time of a frame: it delivers the frame at once, and nothing else happens,
exactly if the time is older than the window; otherwise the newest time becomes this one, unless it
is newer. -/
def Honours (w : DelayWindow) (f : Frame) (time : Int) : Prop :=
  (w.push f = (w, [f]) ↔ time < w.highWater - w.delay) ∧
    (w.highWater - w.delay ≤ time → (w.push f).1.highWater = max w.highWater time)

namespace Ready

theorem run (h : w.Ready) (moves : List Move) : (w.run moves).1.Ready := by
  induction moves generalizing w with
  | nil => exact h
  | cons m rest ih => exact ih (h.act m)

/-- A frame is not too late if the time it is given is the newest. -/
theorem not_early_of_newest (h : w.Ready) (newest : (stamp w.highWater f).time = w.highWater) :
    ¬ (stamp w.highWater f).time < w.cutoff := by
  have nonneg : 0 ≤ w.delay := h.steady.delay_nonneg
  rw [h.early_iff, Bool.not_eq_false, reaches_iff, newest]
  omega

/-- A frame is delivered at once, and nothing else happens, exactly if the time it is given is
older than the window. -/
theorem push_eq_iff (h : w.Ready) (other : isSequenced f = false) :
    w.push f = (w, [f]) ↔ (stamp w.highWater f).time < w.highWater - w.delay := by
  have early_iff : (stamp w.highWater f).time < w.cutoff
      ↔ (stamp w.highWater f).time < w.highWater - w.delay := by
    rw [h.early_iff, Bool.eq_false_iff, Ne, reaches_iff, Int.not_le]
  rw [← early_iff]
  refine ⟨fun same => ?_, push_of_early other⟩
  by_contra onTime
  -- Otherwise either the window moves up or nothing is delivered.
  by_cases newer : w.highWater < (stamp w.highWater f).time
  · have moved : (w.push f).1.highWater = (stamp w.highWater f).time := by
      rw [push_of_newer other onTime newer]
      rfl
    rw [same] at moved
    exact absurd moved (Int.ne_of_lt newer)
  · rw [push_of_held other onTime newer] at same
    cases congrArg Prod.snd same

/-- The time that a frame is given is honoured. -/
theorem honours_time (h : w.Ready) (other : isSequenced f = false) :
    w.Honours f (stamp w.highWater f).time :=
  ⟨h.push_eq_iff other, fun _ => h.highWater_push other⟩

/-- Of a frame that is given the newest time, any time that lies in the window is honoured, and no
other. -/
theorem honours_iff_of_newest (h : w.Ready) (other : isSequenced f = false)
    (newest : (stamp w.highWater f).time = w.highWater) (time : Int) :
    w.Honours f time ↔ w.highWater - w.delay ≤ time ∧ time ≤ w.highWater := by
  have nonneg : 0 ≤ w.delay := h.steady.delay_nonneg
  rw [Honours, h.push_eq_iff other, h.highWater_push other, newest]
  omega

end Ready

end DelayWindow

open DelayWindow

/-- **When the time of a quote is honoured.** Take any frame outside a sequence whose payload is an
object that gives a positive time of the quote, and a window of any length that is not negative,
after any pushes and flushes. The window honours the time if whatever stands beside it fits, and
otherwise just if the time happens to lie in the window. So it does in all its states exactly if
what stands beside the time fits. If that does not, the frame is held under the newest time, without
a volume, and nothing is delivered, whatever its own time. -/
theorem time_honoured_iff {delay : Int} (nonneg : 0 ≤ delay) (unsequenced : f.seq.toInt ≤ 0)
    (object : f.payload?.bind Json.members? = some parts)
    (given : Gives parts "tick_timestamp" tick) (positive : 0 < tick.toInt) :
    (∀ moves, let w := ((empty delay).run moves).1
      w.Honours f tick.toInt ↔
        OthersFit parts ∨ w.highWater - delay ≤ tick.toInt ∧ tick.toInt ≤ w.highWater) ∧
      ((∀ moves, ((empty delay).run moves).1.Honours f tick.toInt) ↔ OthersFit parts) ∧
      (¬ OthersFit parts → ∀ moves, let w := ((empty delay).run moves).1
        w.push f = (w.holding ⟨f, w.highWater, 0⟩, [])) := by
  have other := isSequenced_eq_false.mpr unsequenced
  have ready (moves : List Move) : ((empty delay).run moves).1.Ready :=
    (ready_empty nonneg).run moves
  have honoured (fits : OthersFit parts) (moves : List Move) :
      ((empty delay).run moves).1.Honours f tick.toInt := by
    have own := (ready moves).honours_time other
    rwa [stamp_time_of_othersFit object given positive fits] at own
  have honoured_iff (moves : List Move) : let w := ((empty delay).run moves).1
      w.Honours f tick.toInt ↔
        OthersFit parts ∨ w.highWater - delay ≤ tick.toInt ∧ tick.toInt ≤ w.highWater := by
    intro w
    by_cases fits : OthersFit parts
    · exact iff_of_true (honoured fits moves) (.inl fits)
    · have newest : (stamp w.highWater f).time = w.highWater := by
        rw [stamp_of_not_othersFit object fits]
      have length : w.delay = delay := delay_run _ moves
      rw [(ready moves).honours_iff_of_newest other newest, length, or_iff_right fits]
  refine ⟨honoured_iff, ⟨fun always => ?_, honoured⟩, fun mistyped moves => ?_⟩
  · -- A window that has seen nothing reaches no positive time.
    refine ((honoured_iff []).mp (always [])).resolve_right fun ⟨_, le⟩ => ?_
    exact absurd positive (Int.not_lt.mpr le)
  · intro w
    have stamped := stamp_of_not_othersFit object mistyped w.highWater
    have newest : (stamp w.highWater f).time = w.highWater := by rw [stamped]
    have held := push_of_held other ((ready moves).not_early_of_newest newest)
      (Int.not_lt.mpr (Int.le_of_eq newest))
    rwa [stamped] at held

/-- A quote with one more member. -/
def quoteBeside (member : String × List Char) : Frame :=
  ⟨"price", String.ofList (Json.record [("tick_timestamp", Text.natural 1000), member]), 0⟩

/-- The members of such a quote. -/
def membersBeside (member : String × List Char) : List (String × Input) :=
  [("tick_timestamp", (Text.natural 1000).map some), (member.1, member.2.map some)]

/-- A member of another name hides nothing, whatever it holds. -/
theorem time_honoured_beside_null :
    let f := quoteBeside ("bid", Json.writeNull)
    let parts := membersBeside ("bid", Json.writeNull)
    let w := ((empty 100).run sampleMoves).1
    (f.payload?.bind Json.members? = some parts ∧ Gives parts "tick_timestamp" 1000) ∧
      w.Honours f 1000 := by
  intro f parts w
  have object : f.payload?.bind Json.members? = some parts := by decide +kernel
  have given : Gives parts "tick_timestamp" 1000 := ⟨_, rfl, by decide +kernel⟩
  have fits : OthersFit parts := ⟨⟨0, .inr ⟨rfl, rfl⟩⟩, ⟨0, .inr ⟨rfl, rfl⟩⟩⟩
  have nonneg : (0 : Int) ≤ 100 := by decide
  obtain ⟨honoured_iff, -, -⟩ := time_honoured_iff nonneg (by decide) object given (by decide)
  exact ⟨⟨object, given⟩, (honoured_iff sampleMoves).mpr (.inl fits)⟩

/-- But the absent value as the time of the trade hides the time of the quote. -/
theorem absent_value_hides_time :
    let f := quoteBeside ("trade_timestamp", Json.writeNull)
    let parts := membersBeside ("trade_timestamp", Json.writeNull)
    (f.seq.toInt ≤ 0 ∧ f.payload?.bind Json.members? = some parts ∧
        Gives parts "tick_timestamp" 1000) ∧
      ((empty 100).push f).1.highWater = 0 ∧ ¬ (empty 100).Honours f 1000 := by
  intro f parts
  have object : f.payload?.bind Json.members? = some parts := by decide +kernel
  have given : Gives parts "tick_timestamp" 1000 := ⟨_, rfl, by decide +kernel⟩
  have stays : ((empty 100).push f).1.highWater = 0 := by decide +kernel
  refine ⟨⟨by decide, object, given⟩, stays, fun honours => ?_⟩
  -- The window would have to move up.
  have moved := honours.2 (by decide)
  rw [stays] at moved
  cases moved

end MarketStream.Reorder
