import MarketStream.Proofs.Lookup
import MarketStream.Proofs.Quote.Newest
import MarketStream.Trade.Detector

/-!
# Two ways to see a trade

A history sees a trade where the volume traded so far differs from that of the quote just before;
a detector infers one where it exceeds what it remembers of the instrument. On the quotes of one
instrument that come in order and whose volume does not shrink, both see the same trades, and the
volume of a trade is what was traded since the quote before it.

* `Detector.last?_onQuote` — what a detector remembers; `Detector.onQuotes` — a run of quotes;
* `Steady` — quotes of one instrument in order, whose volume does not shrink;
* `Agrees` — a detector infers of a quote what a history sees in it;
* `detectors_agree` — so they agree on steady quotes.
-/

namespace MarketStream.Trade

open Quote (notAfter)
open Quote.History (Entry Move linked placeAll reverse_placeAll run_eq_extend extend_empty
  reverse_paired)

/-! ## What a detector remembers -/

namespace Detector

theorem lookup_remember (i j : Instrument) (q : Quote) (table : List (Instrument × Quote)) :
    (remember i q table).lookup j = if j = i then some q else table.lookup j := by
  induction table with
  | nil => exact lookup_cons_ite j i q []
  | cons entry rest ih =>
    obtain ⟨k, r⟩ := entry
    rw [remember]
    split
    · next same =>
      subst same
      rw [lookup_cons_ite, lookup_cons_ite]
      split <;> rfl
    · next other =>
      rw [lookup_cons_ite, lookup_cons_ite, ih]
      by_cases here : j = k
      · rw [if_pos here, if_pos here, if_neg fun eq => other (eq.symm.trans here)]
      · rw [if_neg here, if_neg here]

/-- A quote is remembered as the last one of its instrument. -/
theorem last?_onQuote (d : Detector) (q : Quote) (j : Instrument) :
    (d.onQuote q).1.last? j = if j = .ofQuote q then some q else d.last? j :=
  lookup_remember ..

/-- The trades that quotes stand for, taken in one after another. -/
def onQuotes (d : Detector) : List Quote → List (List Trade)
  | [] => []
  | q :: rest => (d.onQuote q).2 :: (d.onQuote q).1.onQuotes rest

end Detector

/-! ## Steady quotes -/

/-- Quotes of one instrument in order, whose volume does not shrink. -/
structure Steady (quotes : List Quote) : Prop where
  /-- They are quotes of one instrument. -/
  alike : quotes.Pairwise fun q r => Instrument.ofQuote q = Instrument.ofQuote r
  /-- By tick time and then by the volume, none is after a later one. -/
  inOrder : quotes.Pairwise fun q r => q.notAfter r = true
  /-- The volume is not negative. -/
  counted : ∀ q ∈ quotes, 0 ≤ q.turnoverVolume
  /-- The volume does not shrink. -/
  growing : quotes.Pairwise fun q r => q.turnoverVolume ≤ r.turnoverVolume

theorem map_quote_linked (prev : Option Quote) (quotes : List Quote) :
    (linked prev quotes).map Entry.quote = quotes := by
  induction quotes generalizing prev with
  | nil => rfl
  | cons q rest ih => rw [linked, List.map_cons, ih]

namespace Steady

variable {q : Quote} {quotes : List Quote}

theorem tail (h : Steady (q :: quotes)) : Steady quotes where
  alike := h.alike.of_cons
  inOrder := h.inOrder.of_cons
  counted r hr := h.counted r (List.mem_cons_of_mem _ hr)
  growing := h.growing.of_cons

/-- A history that has room for steady quotes shows them as they came. -/
theorem entries_of_room {capacity : Nat} {moves : List Move}
    (h : Steady (moves.flatMap Move.added))
    (room : (moves.flatMap Move.added).length ≤ max capacity 1) :
    ((Quote.History.empty capacity).run moves).entries
      = linked none (moves.flatMap Move.added) := by
  have sorted : (placeAll (moves.flatMap Move.added)).reverse = moves.flatMap Move.added := by
    rw [reverse_placeAll, List.mergeSort_of_pairwise h.inOrder]
  have fits : (placeAll (moves.flatMap Move.added)).length ≤ max capacity 1 := by
    rwa [← List.length_reverse, sorted]
  have held : ((Quote.History.empty capacity).run moves).quotes
      = placeAll (moves.flatMap Move.added) := by
    rw [run_eq_extend, extend_empty]
    exact List.take_of_length_le fits
  rw [Quote.History.entries, Quote.History.backward, held, reverse_paired, sorted]

end Steady

/-! ## Agreement -/

/-- A detector infers of a quote what a history sees in it: a trade of the volume since the quote
just before, or none. -/
structure Agrees (e : Entry) (trades : List Trade) : Prop where
  /-- A trade is inferred if and only if the history sees one. -/
  sees : trades ≠ [] ↔ e.isTrade = true
  /-- Its volume is the difference to the quote just before, and positive. -/
  volume : ∀ t ∈ trades, ∃ p, e.prev = some p ∧
    t.volume.toInt = e.quote.turnoverVolume.toInt - p.turnoverVolume.toInt ∧ 0 < t.volume

/-- The difference of two volumes that do not shrink is counted exactly. -/
theorem toInt_ofInt_sub {v w : Int64} (counted : 0 ≤ v) (growing : v ≤ w) :
    (Int64.ofInt (w.toInt - v.toInt)).toInt = w.toInt - v.toInt := by
  have low : 0 ≤ v.toInt := Int64.le_iff_toInt_le.mp counted
  have grows : v.toInt ≤ w.toInt := Int64.le_iff_toInt_le.mp growing
  have fits := w.toInt_lt
  exact Int64.toInt_ofInt_of_le (by omega) (by omega)

/-- What a detector infers of a quote after one of no greater volume is what a history sees. -/
theorem Detector.traded?_eq {p q : Quote} (counted : 0 ≤ p.turnoverVolume)
    (growing : p.turnoverVolume ≤ q.turnoverVolume) :
    traded? p q = if Entry.isTrade ⟨q, some p⟩ then
      some (.ofInt (q.turnoverVolume.toInt - p.turnoverVolume.toInt)) else none := by
  have low : 0 ≤ p.turnoverVolume.toInt := Int64.le_iff_toInt_le.mp counted
  have grows : p.turnoverVolume.toInt ≤ q.turnoverVolume.toInt :=
    Int64.le_iff_toInt_le.mp growing
  have fits : q.turnoverVolume.toInt ≤ Int64.maxValue.toInt := Int64.toInt_le q.turnoverVolume
  have moved : (p.turnoverVolume != q.turnoverVolume) = true ↔
      p.turnoverVolume.toInt < q.turnoverVolume.toInt := by
    rw [bne_iff_ne, ne_eq, ← Int64.toInt_inj]
    omega
  rw [traded?, Entry.isTrade]
  refine if_congr ?_ rfl rfl
  rw [Bool.and_eq_true, beq_iff_eq, Option.all_some, moved, eq_comm (a := q.tradeTime)]
  refine and_congr_right fun _ => ?_
  omega

/-- What a detector that remembers the quote just before infers of a quote. -/
theorem Detector.agrees_onQuote {d : Detector} {p q : Quote}
    (last : d.last? (.ofQuote q) = some p) (counted : 0 ≤ p.turnoverVolume)
    (growing : p.turnoverVolume ≤ q.turnoverVolume) :
    Agrees ⟨q, some p⟩ (d.onQuote q).2 := by
  have inferred : (d.onQuote q).2 = ((traded? p q).map (infer q)).toList := by
    rw [onQuote, last]
    rfl
  rw [inferred, traded?_eq counted growing]
  by_cases trade : Entry.isTrade ⟨q, some p⟩ = true
  · rw [if_pos trade]
    refine ⟨iff_of_true (List.cons_ne_nil _ _) trade, ?_⟩
    intro t ht
    obtain rfl := List.mem_singleton.mp ht
    have volume := toInt_ofInt_sub counted growing
    refine ⟨p, rfl, volume, ?_⟩
    have moved : p.turnoverVolume ≠ q.turnoverVolume := by
      rw [Entry.isTrade, Bool.and_eq_true, Option.all_some, bne_iff_ne] at trade
      exact trade.2
    have grows := Int64.lt_iff_toInt_lt.mp (Int64.lt_of_le_of_ne growing moved)
    rw [Int64.lt_iff_toInt_lt]
    show 0 < (Int64.ofInt _).toInt
    omega
  · rw [if_neg trade]
    exact ⟨iff_of_false (fun some_ => some_ rfl) trade, fun t ht => absurd ht List.not_mem_nil⟩

/-- A detector that remembers a quote agrees with a history on the steady quotes after it. -/
theorem Detector.agrees_onQuotes {d : Detector} {p : Quote} {quotes : List Quote}
    (last : d.last? (.ofQuote p) = some p) (steady : Steady (p :: quotes)) :
    List.Forall₂ Agrees (linked (some p) quotes) (d.onQuotes quotes) := by
  induction quotes generalizing d p with
  | nil => exact .nil
  | cons q rest ih =>
    have same : Instrument.ofQuote p = .ofQuote q :=
      List.rel_of_pairwise_cons steady.alike List.mem_cons_self
    have counted : 0 ≤ p.turnoverVolume := steady.counted p List.mem_cons_self
    have growing : p.turnoverVolume ≤ q.turnoverVolume :=
      List.rel_of_pairwise_cons steady.growing List.mem_cons_self
    refine .cons (agrees_onQuote (same ▸ last) counted growing) (ih ?_ steady.tail)
    rw [last?_onQuote, if_pos rfl]

/-- A fresh detector agrees with a history on steady quotes, the first one apart. -/
theorem Detector.agrees_empty {quotes : List Quote} (steady : Steady quotes) :
    List.Forall₂ Agrees (linked none quotes).tail (empty.onQuotes quotes).tail := by
  cases quotes with
  | nil => exact .nil
  | cons q rest =>
    have remembered : (empty.onQuote q).1.last? (.ofQuote q) = some q := by
      rw [last?_onQuote, if_pos rfl]
    exact agrees_onQuotes remembered steady

/-- **The two agree.** Take any quotes of one instrument that come in order and whose volume is not
negative and does not shrink. A history with room for them, to which they are added one by one or
many at once, shows them as they came; and of each of them but the first, a fresh detector that
takes them in infers what the history sees in it (`Agrees`). -/
theorem detectors_agree {capacity : Nat} {moves : List Move}
    (steady : Steady (moves.flatMap Move.added))
    (room : (moves.flatMap Move.added).length ≤ max capacity 1) :
    let quotes := moves.flatMap Move.added
    let entries := ((Quote.History.empty capacity).run moves).entries
    entries.map Entry.quote = quotes ∧
      List.Forall₂ Agrees entries.tail (Detector.empty.onQuotes quotes).tail := by
  intro quotes entries
  have shown : entries = linked none quotes := steady.entries_of_room room
  rw [shown]
  exact ⟨map_quote_linked none quotes, Detector.agrees_empty steady⟩

/-- Four quotes for which there is just room: the second one repeats the first, the third one is
made after its trade, and the last one trades all that can be counted. -/
theorem detectors_agree_sample :
    let quote : Int64 → Int64 → Int64 → Quote := fun tickTime tradeTime turnoverVolume =>
      { identifier := "A", market := 1, tickTime, tradeTime, turnoverVolume }
    let quotes := [quote 100 100 500, quote 100 100 500, quote 200 100 900,
      quote 200 200 Int64.maxValue]
    let moves : List Move := [.append (quote 100 100 500), .extend quotes.tail]
    let entries := ((Quote.History.empty 4).run moves).entries
    let trades := Detector.empty.onQuotes quotes
    Steady quotes ∧ quotes.length ≤ max 4 1 ∧ List.Forall₂ Agrees entries.tail trades.tail ∧
      trades.map (List.map Trade.volume) = [[], [], [], [Int64.maxValue - 900]] := by
  intro quote quotes moves entries trades
  have steady : Steady quotes := ⟨by decide, by decide, by decide, by decide⟩
  have agree := @detectors_agree 4 moves steady (by decide)
  exact ⟨steady, by decide, agree.2, by decide⟩

end MarketStream.Trade
