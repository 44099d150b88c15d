import Mathlib.Algebra.Ring.Int.Defs
import MarketStream.Proofs.Trade.Agreement

/-!
# Accounting for volume

A detector takes in frames of any kind and of any number of instruments, readable or not. What it
infers for an instrument depends on the quotes of that instrument alone, since it remembers the last
quote of each by itself. If these quotes are made at the time of their trades and their volume does
not shrink, what is inferred adds up to the volume traded from the first of them to the last.

* `Detector.hear`, `Detector.given` — one frame, and what is given for a run of frames;
* `quotesOf`, `Detector.inferred` — the quotes of an instrument, and the trades inferred for it;
* `Detector.inferred_eq` — what is inferred is inferred from these quotes;
* `Detector.volume_onQuotes` — and adds up;
* `volume_accounted_for` — what a detector gives for any frames.
-/

namespace MarketStream.Trade

open Quote.History (Entry)

/-- The instrument a trade is about. -/
def Instrument.ofTrade (t : Trade) : Instrument := (t.identifier, t.market)

/-- The quote that a frame brings of an instrument. -/
def quoteOf? (i : Instrument) (f : Frame) : Option Quote :=
  if f.kind = .price then (Quote.ofFrame f).toOption.filter fun q => Instrument.ofQuote q = i
  else none

/-- The quotes that frames bring of an instrument. -/
def quotesOf (i : Instrument) (frames : List Frame) : List Quote := frames.filterMap (quoteOf? i)

/-- A quote or a trade that cannot be read. -/
def IsUnreadable (f : Frame) : Prop :=
  f.kind = .price ∧ (∀ q, Quote.ofFrame f ≠ .ok q) ∨ f.kind = .trade ∧ ∀ t, Trade.ofFrame f ≠ .ok t

theorem quoteOf?_eq_some {i : Instrument} {f : Frame} {q : Quote} :
    quoteOf? i f = some q ↔
      f.kind = .price ∧ Quote.ofFrame f = .ok q ∧ Instrument.ofQuote q = i := by
  rw [quoteOf?]
  by_cases kind : f.kind = .price
  · rw [if_pos kind, Option.filter_eq_some_iff, decide_eq_true_eq, and_iff_right kind]
    cases Quote.ofFrame f <;> simp [Except.toOption]
  · rw [if_neg kind]
    exact iff_of_false nofun fun h => kind h.1

/-- Leaving out frames that bring no quote of an instrument. -/
theorem quotesOf_filter {i : Instrument} {frames : List Frame} {keep : Frame → Bool}
    (h : ∀ f ∈ frames, (quoteOf? i f).isSome → keep f = true) :
    quotesOf i (frames.filter keep) = quotesOf i frames := by
  rw [quotesOf, List.filterMap_filter]
  refine List.filterMap_congr fun f hf => ?_
  cases found : quoteOf? i f with
  | none => exact ite_self none
  | some q => exact if_pos (h f hf (found ▸ rfl))

namespace Detector

/-! ## Runs of frames -/

/-- Takes in a frame. If it cannot be read, nothing changes and nothing is given. -/
def hear (d : Detector) (f : Frame) : Detector × List Trade :=
  match d.onFrame f with
  | .ok heard => heard
  | .error _ => (d, [])

/-- A detector that has taken in frames one after another. -/
def after (d : Detector) (frames : List Frame) : Detector :=
  frames.foldl (fun d f => (d.hear f).1) d

/-- The trades given for frames, frame by frame. -/
def given (d : Detector) : List Frame → List (List Trade)
  | [] => []
  | f :: rest => (d.hear f).2 :: (d.hear f).1.given rest

/-- The trades inferred for an instrument: those of it that are given for other frames than
trades. -/
def inferred (d : Detector) (i : Instrument) (frames : List Frame) : List Trade :=
  (((frames.zip (d.given frames)).filter fun p => p.1.kind ≠ .trade).flatMap Prod.snd).filter
    fun t => Instrument.ofTrade t = i

theorem getElem?_given (d : Detector) (frames : List Frame) (k : Nat) :
    (d.given frames)[k]? = (frames[k]?).map fun f => ((d.after (frames.take k)).hear f).2 := by
  induction frames generalizing d k with
  | nil => rfl
  | cons f rest ih =>
    cases k with
    | zero => rfl
    | succ k => exact ih (d.hear f).1 k

theorem after_take_succ (d : Detector) {frames : List Frame} {k : Nat} {f : Frame}
    (h : frames[k]? = some f) :
    d.after (frames.take (k + 1)) = ((d.after (frames.take k)).hear f).1 := by
  rw [List.take_add_one, h, after, List.foldl_append]
  rfl

/-- What is inferred for an instrument from a frame on. -/
theorem inferred_cons (d : Detector) (i : Instrument) (f : Frame) (rest : List Frame) :
    d.inferred i (f :: rest)
      = (if f.kind ≠ .trade then (d.hear f).2.filter fun t => Instrument.ofTrade t = i else [])
        ++ (d.hear f).1.inferred i rest := by
  rw [inferred, given, List.zip_cons_cons, List.filter_cons]
  by_cases kind : f.kind ≠ .trade
  · rw [if_pos (decide_eq_true kind), if_pos kind, List.flatMap_cons, List.filter_append]
    rfl
  · rw [if_neg (by simpa using kind), if_neg kind]
    rfl

/-! ## One frame -/

variable {d d' : Detector} {f : Frame} {i : Instrument} {p q : Quote} {t : Trade}

theorem hear_of_quote (kind : f.kind = .price) (read : Quote.ofFrame f = .ok q) :
    d.hear f = d.onQuote q := by
  rw [hear, onFrame, kind, read]
  rfl

theorem hear_of_trade (kind : f.kind = .trade) (read : Trade.ofFrame f = .ok t) :
    d.hear f = (d, [t]) := by
  rw [hear, onFrame, kind, read]
  rfl

/-- A frame that cannot be read is refused. -/
theorem onFrame_of_unreadable (h : IsUnreadable f) : ∃ fault, d.onFrame f = .error fault := by
  rcases h with ⟨kind, unread⟩ | ⟨kind, unread⟩
  · cases read : Quote.ofFrame f with
    | ok q => exact absurd read (unread q)
    | error fault => exact ⟨fault, by rw [onFrame, kind, read]; rfl⟩
  · cases read : Trade.ofFrame f with
    | ok t => exact absurd read (unread t)
    | error fault => exact ⟨fault, by rw [onFrame, kind, read]; rfl⟩

theorem hear_of_unreadable (h : IsUnreadable f) : d.hear f = (d, []) := by
  obtain ⟨fault, refused⟩ := d.onFrame_of_unreadable h
  rw [hear, refused]

/-- A frame that is no quote leaves what is remembered. -/
theorem hear_fst_of_not_quote (kind : f.kind ≠ .price) : (d.hear f).1 = d := by
  rw [hear, onFrame]
  cases other : f.kind with
  | price => exact absurd other kind
  | trade => cases Trade.ofFrame f <;> rfl
  | _ => rfl

/-- A frame that is neither a quote nor a trade changes nothing and stands for no trade. -/
theorem hear_of_neither (price : f.kind ≠ .price) (trade : f.kind ≠ .trade) :
    d.hear f = (d, []) := by
  rw [hear, onFrame]
  cases kind : f.kind with
  | price => exact absurd kind price
  | trade => exact absurd kind trade
  | _ => rfl

/-- A trade that is given for a quote was inferred from it and from the quote that is remembered of
its instrument. -/
theorem mem_onQuote : t ∈ (d.onQuote q).2 ↔
    ∃ p v, d.last? (.ofQuote q) = some p ∧ traded? p q = some v ∧ infer q v = t := by
  rw [onQuote, Option.mem_toList, Option.map_eq_some_iff]
  simp only [Option.bind_eq_some_iff]
  constructor
  · rintro ⟨v, ⟨p, last, traded⟩, eq⟩
    exact ⟨p, v, last, traded, eq⟩
  · rintro ⟨p, v, last, traded, eq⟩
    exact ⟨v, ⟨p, last, traded⟩, eq⟩

theorem ofTrade_of_mem (h : t ∈ (d.onQuote q).2) : Instrument.ofTrade t = .ofQuote q := by
  obtain ⟨p, v, -, -, rfl⟩ := mem_onQuote.mp h
  rfl

/-- An inferred volume is positive. -/
theorem volume_pos_of_mem (h : t ∈ (d.onQuote q).2) : 0 < t.volume := by
  obtain ⟨p, v, -, traded, rfl⟩ := mem_onQuote.mp h
  rw [traded?] at traded
  split at traded
  · next shown =>
    obtain ⟨-, positive, fits⟩ := shown
    obtain rfl := Option.some.inj traded
    have exact : (Int64.ofInt (q.turnoverVolume.toInt - p.turnoverVolume.toInt)).toInt
        = q.turnoverVolume.toInt - p.turnoverVolume.toInt :=
      Int64.toInt_ofInt_of_le (by omega) (Int.lt_add_one_of_le fits)
    rw [Int64.lt_iff_toInt_lt]
    show 0 < (Int64.ofInt _).toInt
    omega
  · cases traded

/-! ## One instrument -/

/-- A frame that brings no quote of an instrument and is no trade is a quote of another instrument,
or it changes nothing and stands for no trade. -/
theorem hear_of_other (d : Detector) (h : quoteOf? i f = none) (kind : f.kind ≠ .trade) :
    (∃ q, Instrument.ofQuote q ≠ i ∧ d.hear f = d.onQuote q) ∨ d.hear f = (d, []) := by
  by_cases price : f.kind = .price
  · cases read : Quote.ofFrame f with
    | ok q =>
      refine .inl ⟨q, ?_, hear_of_quote price read⟩
      intro about
      rw [quoteOf?_eq_some.mpr ⟨price, read, about⟩] at h
      cases h
    | error fault =>
      exact .inr (hear_of_unreadable (.inl ⟨price, fun q => by rw [read]; exact nofun⟩))
  · exact .inr (hear_of_neither price kind)

/-- A frame that brings no quote of an instrument leaves what is remembered of it. -/
theorem last?_hear (h : quoteOf? i f = none) : (d.hear f).1.last? i = d.last? i := by
  by_cases kind : f.kind = .trade
  · rw [hear_fst_of_not_quote (by rw [kind]; exact nofun)]
  · rcases d.hear_of_other h kind with ⟨q, other, heard⟩ | heard
    · rw [heard, last?_onQuote, if_neg other.symm]
    · rw [heard]

/-- Nothing is inferred for an instrument from a frame that brings no quote of it. -/
theorem inferred_cons_of_none (h : quoteOf? i f = none) (rest : List Frame) :
    d.inferred i (f :: rest) = (d.hear f).1.inferred i rest := by
  rw [inferred_cons]
  by_cases kind : f.kind ≠ .trade
  · have nothing : (d.hear f).2.filter (fun t => Instrument.ofTrade t = i) = [] := by
      rcases d.hear_of_other h kind with ⟨q, other, heard⟩ | heard
      · refine List.filter_eq_nil_iff.mpr fun t ht => ?_
        rw [heard] at ht
        rw [decide_eq_true_eq, ofTrade_of_mem ht]
        exact other
      · rw [heard, List.filter_nil]
    rw [if_pos kind, nothing, List.nil_append]
  · rw [if_neg kind, List.nil_append]

/-- What is inferred for an instrument from a quote of it. -/
theorem inferred_cons_of_some (h : quoteOf? i f = some q) (rest : List Frame) :
    d.inferred i (f :: rest) = (d.onQuote q).2 ++ (d.onQuote q).1.inferred i rest := by
  obtain ⟨kind, read, rfl⟩ := quoteOf?_eq_some.mp h
  have all : (d.onQuote q).2.filter (fun t => Instrument.ofTrade t = .ofQuote q)
      = (d.onQuote q).2 :=
    List.filter_eq_self.mpr fun t ht => decide_eq_true (ofTrade_of_mem ht)
  have quote : f.kind ≠ .trade := by
    rw [kind]
    exact nofun
  rw [inferred_cons, if_pos quote, hear_of_quote kind read, all]

/-- **One instrument at a time.** What is inferred for an instrument is what a detector that
remembers the same of it infers from its quotes alone. -/
theorem inferred_eq (same : d.last? i = d'.last? i) (frames : List Frame) :
    d.inferred i frames = (d'.onQuotes (quotesOf i frames)).flatten := by
  induction frames generalizing d d' with
  | nil => rfl
  | cons f rest ih =>
    cases found : quoteOf? i f with
    | none =>
      rw [inferred_cons_of_none found, quotesOf, List.filterMap_cons_none found]
      exact ih ((last?_hear found).trans same)
    | some q =>
      obtain ⟨-, -, about⟩ := quoteOf?_eq_some.mp found
      have trades : (d.onQuote q).2 = (d'.onQuote q).2 := by
        rw [onQuote, onQuote, about, same]
      have remembered : (d.onQuote q).1.last? i = (d'.onQuote q).1.last? i := by
        rw [last?_onQuote, last?_onQuote, if_pos about.symm, if_pos about.symm]
      rw [inferred_cons_of_some found, quotesOf, List.filterMap_cons_some found, onQuotes,
        List.flatten_cons, trades, ih remembered]
      rfl

/-! ## Volume -/

/-- What trades add up to. -/
def volume (trades : List Trade) : Int := (trades.map fun t => t.volume.toInt).sum

theorem volume_append (trades others : List Trade) :
    volume (trades ++ others) = volume trades + volume others := by
  rw [volume, List.map_append, List.sum_append]
  rfl

/-- From a quote made at the time of its trade, after one of no greater volume, the difference is
inferred, whether there is one or not. -/
theorem volume_onQuote (last : d.last? (.ofQuote q) = some p) (timely : q.tradeTime = q.tickTime)
    (counted : 0 ≤ p.turnoverVolume) (growing : p.turnoverVolume ≤ q.turnoverVolume) :
    volume (d.onQuote q).2 = q.turnoverVolume.toInt - p.turnoverVolume.toInt := by
  have grows : p.turnoverVolume.toInt ≤ q.turnoverVolume.toInt :=
    Int64.le_iff_toInt_le.mp growing
  have trades : (d.onQuote q).2 = ((traded? p q).map (infer q)).toList := by
    rw [onQuote, last]
    rfl
  rw [trades, traded?_eq counted growing]
  split
  · exact (Int.add_zero _).trans (toInt_ofInt_sub counted growing)
  · next still =>
    have same : p.turnoverVolume = q.turnoverVolume := by
      simpa [Entry.isTrade, timely] using still
    rw [same, Int.sub_self]
    rfl

/-- What is inferred from quotes of one instrument adds up to the volume traded from the quote that
is remembered to the last of them. -/
theorem volume_onQuotes {quotes : List Quote} (last : d.last? (.ofQuote p) = some p)
    (alike : ∀ q ∈ quotes, Instrument.ofQuote q = .ofQuote p)
    (timely : ∀ q ∈ quotes, q.tradeTime = q.tickTime)
    (counted : ∀ q ∈ p :: quotes, 0 ≤ q.turnoverVolume)
    (growing : (p :: quotes).Pairwise fun q r => q.turnoverVolume ≤ r.turnoverVolume) :
    volume (d.onQuotes quotes).flatten
      = (quotes.getLast?.getD p).turnoverVolume.toInt - p.turnoverVolume.toInt := by
  induction quotes generalizing d p with
  | nil => exact (Int.sub_self _).symm
  | cons q rest ih =>
    obtain ⟨about, alike⟩ := List.forall_mem_cons.mp alike
    obtain ⟨now, timely⟩ := List.forall_mem_cons.mp timely
    obtain ⟨low, counted⟩ := List.forall_mem_cons.mp counted
    have first : volume (d.onQuote q).2 = q.turnoverVolume.toInt - p.turnoverVolume.toInt :=
      volume_onQuote (about ▸ last) now low (List.rel_of_pairwise_cons growing List.mem_cons_self)
    have remembered : (d.onQuote q).1.last? (.ofQuote q) = some q := by
      rw [last?_onQuote, if_pos rfl]
    have others := ih remembered (fun r hr => (alike r hr).trans about.symm) timely counted
      growing.of_cons
    rw [onQuotes, List.flatten_cons, volume_append, first, others, List.getLast?_cons]
    show _ = ((rest.getLast?.getD q).turnoverVolume.toInt - _ : Int)
    omega

/-- A volume that is inferred from quotes is positive. -/
theorem volume_pos_of_mem_onQuotes {quotes : List Quote} (h : t ∈ (d.onQuotes quotes).flatten) :
    0 < t.volume := by
  induction quotes generalizing d with
  | nil => exact absurd h List.not_mem_nil
  | cons q rest ih =>
    rw [onQuotes, List.flatten_cons, List.mem_append] at h
    rcases h with now | later
    · exact volume_pos_of_mem now
    · exact ih later

/-- What a fresh detector infers from quotes of one instrument adds up to the volume traded from the
first to the last of them. -/
theorem volume_onQuotes_empty {quotes : List Quote} {first last : Quote}
    (head : quotes.head? = some first) (final : quotes.getLast? = some last)
    (alike : ∀ q ∈ quotes, Instrument.ofQuote q = i)
    (steady : ∀ q ∈ quotes, q.tradeTime = q.tickTime ∧ 0 ≤ q.turnoverVolume)
    (growing : quotes.Pairwise fun q r => q.turnoverVolume ≤ r.turnoverVolume) :
    volume (empty.onQuotes quotes).flatten
      = last.turnoverVolume.toInt - first.turnoverVolume.toInt := by
  obtain ⟨rest, rfl⟩ := List.head?_eq_some_iff.mp head
  obtain ⟨rfl, alike⟩ := List.forall_mem_cons.mp alike
  have remembered : (empty.onQuote first).1.last? (.ofQuote first) = some first := by
    rw [last?_onQuote, if_pos rfl]
  have others := volume_onQuotes remembered alike
    (fun q hq => (steady q (List.mem_cons_of_mem _ hq)).1) (fun q hq => (steady q hq).2) growing
  rw [List.getLast?_cons, Option.some.injEq] at final
  rw [final] at others
  exact others

end Detector

/-- **Volume is accounted for.** Let a fresh detector take in any frames. A trade that can be read
is passed on as it is, at its own place; a quote or a trade that cannot be read is refused, nothing
is given for it, and all quotes are remembered as before. For each instrument, leaving out any
frames that bring no quote of it leaves the trades that are inferred for it; each of them has a
positive volume; and if its quotes are made at the times of their trades and their volume is not
negative and does not shrink, the inferred volumes add up to the difference of the last and the
first. -/
theorem volume_accounted_for (frames : List Frame) :
    (∀ k f, frames[k]? = some f →
      (∀ t, f.kind = .trade → Trade.ofFrame f = .ok t →
        (Detector.empty.given frames)[k]? = some [t]) ∧
      (IsUnreadable f →
        (∃ fault, (Detector.empty.after (frames.take k)).onFrame f = .error fault) ∧
        (Detector.empty.given frames)[k]? = some [] ∧
        Detector.empty.after (frames.take (k + 1)) = Detector.empty.after (frames.take k))) ∧
    ∀ i : Instrument,
      (∀ keep : Frame → Bool, (∀ f ∈ frames, (quoteOf? i f).isSome → keep f = true) →
        Detector.empty.inferred i (frames.filter keep) = Detector.empty.inferred i frames) ∧
      (∀ t ∈ Detector.empty.inferred i frames, 0 < t.volume) ∧
      ∀ first last, (quotesOf i frames).head? = some first →
        (quotesOf i frames).getLast? = some last →
        (∀ q ∈ quotesOf i frames, q.tradeTime = q.tickTime ∧ 0 ≤ q.turnoverVolume) →
        ((quotesOf i frames).Pairwise fun q r => q.turnoverVolume ≤ r.turnoverVolume) →
        ((Detector.empty.inferred i frames).map fun t => t.volume.toInt).sum
          = last.turnoverVolume.toInt - first.turnoverVolume.toInt := by
  refine ⟨fun k f here => ⟨fun t kind read => ?_, fun unreadable =>
    ⟨Detector.onFrame_of_unreadable unreadable, ?_, ?_⟩⟩, fun i => ?_⟩
  · rw [Detector.getElem?_given, here, Option.map_some, Detector.hear_of_trade kind read]
  · rw [Detector.getElem?_given, here, Option.map_some, Detector.hear_of_unreadable unreadable]
  · rw [Detector.after_take_succ _ here, Detector.hear_of_unreadable unreadable]
  · have alone : ∀ frames, Detector.empty.inferred i frames
        = (Detector.empty.onQuotes (quotesOf i frames)).flatten := Detector.inferred_eq rfl
    have alike : ∀ q ∈ quotesOf i frames, Instrument.ofQuote q = i := by
      intro q hq
      obtain ⟨f, -, found⟩ := List.mem_filterMap.mp hq
      exact (quoteOf?_eq_some.mp found).2.2
    refine ⟨fun keep kept => ?_, fun t ht => ?_, fun first last head final steady growing => ?_⟩
    · rw [alone, alone, quotesOf_filter kept]
    · rw [alone] at ht
      exact Detector.volume_pos_of_mem_onQuotes ht
    · rw [alone]
      exact Detector.volume_onQuotes_empty head final alike steady growing

/-- Two instruments take turns, a trade of the first comes between its quotes, and so does a quote
that cannot be read. Twice a volume is inferred for the first one. -/
theorem volume_accounted_for_sample :
    let quote : String → String → Frame := fun i volume =>
      ⟨"price", "\x7b\"i\":\"" ++ i ++ "\",\"turnover_volume\":" ++ volume ++ "\x7d", 0⟩
    let trade : Frame := ⟨"trade", "\x7b\"i\":\"A\",\"volume\":7\x7d", 0⟩
    let frames := [quote "A" "5", quote "B" "9", trade, quote "A" "8", ⟨"price", "1", 0⟩,
      quote "A" "12"]
    (Detector.empty.given frames)[2]? = some [{ identifier := "A", volume := 7 }] ∧
      (Detector.empty.given frames)[4]? = some [] ∧
      ((Detector.empty.inferred ("A", 0) frames).map fun t => t.volume.toInt).sum = 12 - 5 := by
  intro quote trade frames
  obtain ⟨pass, account⟩ := volume_accounted_for frames
  have read : Trade.ofFrame trade = .ok { identifier := "A", volume := 7 } := by decide +kernel
  have unread : Quote.ofFrame ⟨"price", "1", 0⟩ = .error .unreadable := by decide +kernel
  let seen : Int64 → Quote := fun turnoverVolume => { identifier := "A", turnoverVolume }
  have quotes : quotesOf ("A", 0) frames = [seen 5, seen 8, seen 12] := by decide +kernel
  obtain ⟨-, -, total⟩ := account ("A", 0)
  rw [quotes] at total
  refine ⟨(pass 2 trade rfl).1 _ rfl read, ((pass 4 _ rfl).2 (.inl ⟨rfl, fun q h => ?_⟩)).2.1,
    total (seen 5) (seen 12) rfl rfl (by decide) (by decide)⟩
  rw [unread] at h
  cases h

end MarketStream.Trade
