import Mathlib.Data.List.Dedup
import MarketStream.Proofs.Quote.Newest
import MarketStream.Proofs.Quote.Pipeline

/-!
# The last trades of a history

A query for the last trades walks a history back through its trades, and a query for the last ticks
with a trade keeps the newest trade of each tick time on the way. The quotes of a history are in
order of their tick times, so the trades of one tick time are met one right after the other.

A walk can stop only at an entry that it has looked at, and one that counts includes every entry it
looks at, so that a query for no trade at all still gives one.

* `Selector.run_pointwise`, `Selector.run_count` — the trades, and the first entries of a walk;
* `Selector.NewestPerTick` — the newest entry of each tick time;
* `Selector.newestPerTick_runFrom` — a walk that keeps them, where tick times do not rise;
* `History.falls_backward_run` — they do not rise on the way back through a history;
* `History.select_last_trades` — what the queries give.
-/

namespace MarketStream.Quote

open History

namespace Selector

/-! ## Trades and numbers of entries -/

/-- A selector that judges each entry by itself and never stops includes all that it likes. -/
theorem run_pointwise (likes : Entry → Bool) (entries : List Entry) :
    (pointwise fun e => ⟨likes e, false⟩).run entries = entries.filter likes := by
  induction entries with
  | nil => rfl
  | cons e older ih =>
    have step : (pointwise fun e => ⟨likes e, false⟩).run (e :: older)
        = (if likes e then [e] else []) ++ (pointwise fun e => ⟨likes e, false⟩).run older :=
      runFrom_cons (pointwise fun e => ⟨likes e, false⟩) () e older
    rw [step, ih, List.filter_cons]
    split <;> rfl

/-- A selector that counts takes the entries that it still lacks, and at least one. -/
theorem runFrom_count (n seen : Nat) (entries : List Entry) :
    (count n).runFrom seen entries = entries.take (max (n - seen) 1) := by
  induction entries generalizing seen with
  | nil => exact List.take_nil.symm
  | cons e older ih =>
    have step : (count n).runFrom seen (e :: older)
        = e :: if decide (n ≤ seen + 1) then [] else (count n).runFrom (seen + 1 : Nat) older :=
      runFrom_cons (count n) seen e older
    rw [step]
    by_cases last : n ≤ seen + 1
    · have one : max (n - seen) 1 = 1 := by omega
      rw [one, if_pos (decide_eq_true last)]
      rfl
    · have more : max (n - seen) 1 = max (n - (seen + 1)) 1 + 1 := by omega
      rw [more, if_neg (by simpa using last), ih (seen + 1)]
      rfl

/-- A walk for a number of entries includes the first of them, and at least one. -/
theorem run_count (n : Nat) (entries : List Entry) :
    (count n).run entries = entries.take (max n 1) :=
  runFrom_count n 0 entries

/-! ## The newest entry of each tick time -/

/-- From the newest to the oldest, the first entry of each tick time but the one seen last. -/
structure NewestPerTick (seen : Option Int64) (entries picked : List Entry) : Prop where
  /-- Their tick times fall. -/
  falling : picked.Pairwise fun newer older => older.quote.tickTime < newer.quote.tickTime
  /-- Each tick time but the one seen last is there. -/
  times : ∀ t, t ∈ picked.map (·.quote.tickTime) ↔
    t ∈ entries.map (·.quote.tickTime) ∧ seen ≠ some t
  /-- Each entry is the first of its tick time. -/
  first : ∀ e ∈ picked, entries.find? (·.quote.tickTime = e.quote.tickTime) = some e

namespace NewestPerTick

variable {seen : Option Int64} {e : Entry} {older picked : List Entry}

/-- An entry of the tick time seen last is passed over. -/
theorem skip (h : NewestPerTick (some e.quote.tickTime) older picked) :
    NewestPerTick (some e.quote.tickTime) (e :: older) picked where
  falling := h.falling
  times t := by
    rw [h.times, List.map_cons, List.mem_cons]
    constructor
    · exact fun ⟨there, other⟩ => ⟨.inr there, other⟩
    · rintro ⟨rfl | there, other⟩
      · exact absurd rfl other
      · exact ⟨there, other⟩
  first r hr := by
    have other := ((h.times r.quote.tickTime).mp (List.mem_map_of_mem hr)).2
    rw [List.find?_cons_of_neg, h.first r hr]
    simpa using other

/-- An entry of another tick time is taken. -/
theorem take (h : NewestPerTick (some e.quote.tickTime) older picked)
    (below : ∀ r ∈ older, r.quote.tickTime ≤ e.quote.tickTime)
    (bound : ∀ t ∈ seen, e.quote.tickTime < t) :
    NewestPerTick seen (e :: older) (e :: picked) where
  falling := by
    refine List.pairwise_cons.mpr ⟨?_, h.falling⟩
    intro r hr
    obtain ⟨there, other⟩ := (h.times r.quote.tickTime).mp (List.mem_map_of_mem hr)
    obtain ⟨s, hs, same⟩ := List.mem_map.mp there
    refine Int64.lt_of_le_of_ne (same ▸ below s hs) ?_
    exact fun eq => other (congrArg some eq.symm)
  times t := by
    have unseen : ∀ r ∈ e :: older, seen ≠ some r.quote.tickTime := by
      intro r hr eq
      have above := bound _ eq
      rcases List.mem_cons.mp hr with rfl | hr
      · exact Int64.lt_irrefl above
      · exact Int64.lt_irrefl (Int64.lt_of_lt_of_le above (below r hr))
    rw [List.map_cons, List.mem_cons, h.times, List.map_cons, List.mem_cons]
    constructor
    · rintro (rfl | ⟨there, -⟩)
      · exact ⟨.inl rfl, unseen e List.mem_cons_self⟩
      · obtain ⟨r, hr, rfl⟩ := List.mem_map.mp there
        exact ⟨.inr there, unseen r (List.mem_cons_of_mem _ hr)⟩
    · rintro ⟨here | there, -⟩
      · exact .inl here
      · by_cases here : t = e.quote.tickTime
        · exact .inl here
        · exact .inr ⟨there, fun eq => here (Option.some.inj eq).symm⟩
  first r hr := by
    rcases List.mem_cons.mp hr with rfl | hr
    · exact List.find?_cons_of_pos (by simp)
    · have other := ((h.times r.quote.tickTime).mp (List.mem_map_of_mem hr)).2
      rw [List.find?_cons_of_neg, h.first r hr]
      simpa using other

variable {entries : List Entry}

/-- In a list that begins with the oldest entry, each of them is the last of its tick time. -/
theorem getLast?_eq (h : NewestPerTick seen entries.reverse picked) (he : e ∈ picked) :
    (entries.filter (·.quote.tickTime = e.quote.tickTime)).getLast? = some e := by
  rw [← h.first e he, ← List.head?_filter, List.filter_reverse, List.head?_reverse]

/-- If the tick times rise, theirs are all that there are. -/
theorem dedup_eq (h : NewestPerTick none entries.reverse picked)
    (rises : (entries.map (·.quote.tickTime)).Pairwise (· ≤ ·)) :
    (entries.map (·.quote.tickTime)).dedup = picked.reverse.map (·.quote.tickTime) := by
  have rising : (picked.reverse.map (·.quote.tickTime)).Pairwise (· < ·) :=
    List.pairwise_map.mpr (List.pairwise_reverse.mpr h.falling)
  have same : (entries.map (·.quote.tickTime)).dedup.Perm
      (picked.reverse.map (·.quote.tickTime)) := by
    refine (List.perm_ext_iff_of_nodup (List.nodup_dedup _) (rising.imp Int64.ne_of_lt)).mpr ?_
    intro t
    have there := h.times t
    rw [List.mem_dedup, List.map_reverse, List.mem_reverse, there, List.map_reverse,
      List.mem_reverse, and_iff_left nofun]
  exact same.eq_of_pairwise (fun _ _ _ _ => Int64.le_antisymm)
    (rises.sublist (List.dedup_sublist _)) (rising.imp Int64.le_of_lt)

end NewestPerTick

theorem newestPerTick_runFrom {seen : Option Int64} {entries : List Entry}
    (falls : entries.Pairwise fun newer older => older.quote.tickTime ≤ newer.quote.tickTime)
    (bound : ∀ t ∈ seen, ∀ e ∈ entries, e.quote.tickTime ≤ t) :
    NewestPerTick seen entries (lastPerTick.runFrom seen entries) := by
  induction entries generalizing seen with
  | nil => exact ⟨.nil, by simp [runFrom], by simp [runFrom]⟩
  | cons e older ih =>
    obtain ⟨below, falls⟩ := List.pairwise_cons.mp falls
    have later : NewestPerTick (some e.quote.tickTime) older
        (lastPerTick.runFrom (some e.quote.tickTime) older) :=
      ih falls fun t ht r hr => Option.some.inj ht ▸ below r hr
    by_cases again : seen = some e.quote.tickTime
    · have checked : lastPerTick.check seen e = (seen, ⟨false, false⟩) := if_pos again
      have step : lastPerTick.runFrom seen (e :: older) = lastPerTick.runFrom seen older :=
        runFrom_of_check checked older
      rw [step, again]
      exact later.skip
    · have checked : lastPerTick.check seen e = (some e.quote.tickTime, ⟨true, false⟩) :=
        if_neg again
      have step : lastPerTick.runFrom seen (e :: older)
          = e :: lastPerTick.runFrom (some e.quote.tickTime) older :=
        runFrom_of_check checked older
      rw [step]
      refine later.take below fun t ht => ?_
      refine Int64.lt_of_le_of_ne (bound t ht e List.mem_cons_self) ?_
      rintro rfl
      exact again ht

end Selector

/-! ## What the queries give -/

namespace History

theorem map_quote_paired (qs : List Quote) : (paired qs).map Entry.quote = qs := by
  induction qs with
  | nil => rfl
  | cons q older ih => rw [paired, List.map_cons, ih]

/-- From the newest to the oldest, the tick times of a history do not rise. -/
theorem falls_backward_run (capacity : Nat) (moves : List Move) :
    ((empty capacity).run moves).backward.Pairwise
      fun newer older => older.quote.tickTime ≤ newer.quote.tickTime := by
  have ordered : ((empty capacity).run moves).quotes.Pairwise
      fun newer older => older.notAfter newer = true := by
    rw [run_eq_extend, extend_empty]
    exact (pairwise_placeAll (moves.flatMap Move.added)).sublist (List.take_sublist ..)
  rw [← map_quote_paired ((empty capacity).run moves).quotes, List.pairwise_map] at ordered
  refine ordered.imp fun {newer older} before => ?_
  rw [notAfter, keyLE, decide_eq_true_eq] at before
  rw [Int64.le_iff_toInt_le]
  simp only [sortKey] at before
  omega

/-- **The last trades.** Take any history to which quotes were added, whatever its capacity, and its
trades from the oldest to the newest. A query for a number of trades gives the last ones, up to that
number; a query for a number of ticks gives the newest trade of each of the last distinct tick times
that have one, up to that number, and these tick times rise. A query for none, however, gives what a
query for one gives. -/
theorem select_last_trades (capacity : Nat) (moves : List Move) (n : Nat) :
    let h := (empty capacity).run moves
    let trades := h.entries.filter Entry.isTrade
    let times := (trades.map (·.quote.tickTime)).dedup
    h.select (Selector.trades.andThen (.count n)) = trades.drop (trades.length - max n 1) ∧
    (h.select ((Selector.trades.andThen .lastPerTick).andThen (.count n))).map some
      = (times.drop (times.length - max n 1)).map
          (fun t => (trades.filter (·.quote.tickTime = t)).getLast?) ∧
    times.Pairwise (· < ·) := by
  intro h trades times
  have backward : Selector.trades.run h.backward = trades.reverse := by
    rw [Selector.trades, Selector.run_pointwise, ← List.filter_reverse, History.entries,
      List.reverse_reverse]
  have falls : trades.reverse.Pairwise
      fun newer older => older.quote.tickTime ≤ newer.quote.tickTime := by
    rw [← backward, Selector.trades, Selector.run_pointwise]
    exact (falls_backward_run capacity moves).sublist List.filter_sublist
  have newest : Selector.NewestPerTick none trades.reverse
      (Selector.lastPerTick.run trades.reverse) :=
    Selector.newestPerTick_runFrom falls (by simp)
  generalize picks : Selector.lastPerTick.run trades.reverse = picked at newest
  have rises : (trades.map (·.quote.tickTime)).Pairwise (· ≤ ·) :=
    List.pairwise_map.mpr (List.pairwise_reverse.mp falls)
  have distinct : times = picked.reverse.map (·.quote.tickTime) := newest.dedup_eq rises
  refine ⟨?_, ?_, ?_⟩
  · rw [select, Selector.run_andThen, backward, Selector.run_count, List.reverse_take,
      List.reverse_reverse, List.length_reverse]
  · rw [select, Selector.run_andThen, Selector.run_andThen, backward, picks, Selector.run_count,
      List.reverse_take, distinct, List.length_map, List.length_reverse, ← List.map_drop,
      List.map_map]
    refine List.map_congr_left fun e he => ?_
    exact (newest.getLast?_eq (List.mem_reverse.mp (List.mem_of_mem_drop he))).symm
  · rw [distinct]
    exact List.pairwise_map.mpr (List.pairwise_reverse.mpr newest.falling)

/-- In a history of one trade, a query for the last none of the trades gives that trade. -/
theorem count_zero_selects_trade :
    let q : Quote := { identifier := "A", market := 1, tickTime := 1, tradeTime := 1,
                       turnoverVolume := 5 }
    let h := (empty 10).run [.append q]
    let trades := h.entries.filter Entry.isTrade
    (trades.drop (trades.length - min 0 trades.length)).map Entry.quote = [] ∧
    (h.select (Selector.trades.andThen (.count 0))).map Entry.quote = [q] ∧
    (h.select ((Selector.trades.andThen .lastPerTick).andThen (.count 0))).map Entry.quote = [q] :=
  ⟨by decide, by decide, by decide⟩

end History

end MarketStream.Quote
