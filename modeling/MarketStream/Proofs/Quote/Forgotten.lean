import MarketStream.Proofs.Quote.Newest

/-!
# What forgetting hides

A history that has forgotten its oldest quotes shows the others as one does that has forgotten
nothing, each with the same quote before it. Only the oldest quote that is kept has lost the one
before it: it then counts as the first one of all, so it reports a trade whenever it was made when
one was, and against neither side of the book.

* `Entry.alone` — an entry that has lost the quote before it; `Entry.alone_agrees_iff`;
* `paired_take` — what forgetting does to the entries;
* `kept_agree_iff` — when a history that forgets tells the same as one that does not;
* `forgotten_quote_makes_trade` — that it may not.
-/

namespace MarketStream.Quote.History

/-! ## Entries without the quote before -/

namespace Entry

/-- The entry without the quote before it. -/
def alone (e : Entry) : Entry := { e with prev := none }

theorem isTrade_alone (e : Entry) :
    e.alone.isTrade = decide (e.quote.tickTime = e.quote.tradeTime) := by
  simp [alone, isTrade, beq_eq_decide]

theorem side_alone (e : Entry) : e.alone.side = .unknown := rfl

/-- An entry tells the same without the quote before it unless it is made when a trade is, and the
traded volume did not move or the trade was against a side of the book. -/
theorem alone_agrees_iff (e : Entry) :
    e.alone.isTrade = e.isTrade ∧ e.alone.side = e.side ↔
      ∀ p ∈ e.prev, e.quote.tickTime = e.quote.tradeTime →
        p.turnoverVolume ≠ e.quote.turnoverVolume ∧
          p.ask.same e.quote.last = false ∧ p.bid.same e.quote.last = false := by
  rw [isTrade_alone, side_alone]
  obtain ⟨q, prev⟩ := e
  cases prev with
  | none => simp [isTrade, side, beq_eq_decide]
  | some p =>
    by_cases traded : q.tickTime = q.tradeTime
    · by_cases moved : p.turnoverVolume = q.turnoverVolume
      · simp [isTrade, traded, moved]
      · -- The trade is seen either way, so only its side is left to compare.
        by_cases ask : p.ask.same q.last = true
        · simp [isTrade, side, traded, moved, ask]
        · by_cases bid : p.bid.same q.last = true
          · simp [isTrade, side, traded, moved, ask, bid]
          · simp [isTrade, side, traded, moved, ask, bid]
    · simp [isTrade, side, traded]

end Entry

/-! ## Entries of a history that forgets -/

theorem length_paired (qs : List Quote) : (paired qs).length = qs.length := by
  induction qs with
  | nil => rfl
  | cons q older ih => simp [paired, ih]

/-- Forgetting older quotes leaves the entries of the others, the last of them alone. -/
theorem paired_take (qs : List Quote) (n : Nat) :
    paired (qs.take (n + 1))
      = (paired qs).take n ++ ((paired qs)[n]?.map Entry.alone).toList := by
  induction qs generalizing n with
  | nil => simp [paired]
  | cons q older ih =>
    cases n with
    | zero => simp [paired, Entry.alone]
    | succ n =>
      rw [List.take_succ_cons, paired, ih, List.head?_take, if_neg n.succ_ne_zero]
      rfl

/-- The oldest quote of all is seen alone. -/
theorem prev_of_head? {qs : List Quote} {e : Entry} (h : (paired qs).reverse.head? = some e) :
    e.prev = none := by
  rw [reverse_paired] at h
  cases oldest : qs.reverse with
  | nil => simp [oldest, linked] at h
  | cons q newer =>
    rw [oldest, linked, List.head?_cons, Option.some.injEq] at h
    rw [← h]

/-- A history shows as many of the quotes that were added as it has room for. -/
theorem backward_run (capacity : Nat) (moves : List Move) :
    ((empty capacity).run moves).backward
      = paired ((placeAll (moves.flatMap Move.added)).take (max capacity 1)) := by
  rw [backward, run_eq_extend, extend_empty]

theorem length_placeAll (qs : List Quote) : (placeAll qs).length = qs.length := by
  rw [← List.length_reverse, reverse_placeAll, List.length_mergeSort]

/-- A history shows all quotes that were added, or as many as it has room for. -/
theorem length_entries_run (capacity : Nat) (moves : List Move) :
    ((empty capacity).run moves).entries.length
      = min (max capacity 1) (moves.flatMap Move.added).length := by
  rw [entries, List.length_reverse, backward_run, length_paired, List.length_take, length_placeAll]

/-- A history with room for everything forgets nothing. -/
theorem backward_run_of_room {room : Nat} {moves : List Move}
    (fits : (moves.flatMap Move.added).length ≤ room) :
    ((empty room).run moves).backward = paired (placeAll (moves.flatMap Move.added)) := by
  rw [backward_run, List.take_of_length_le]
  rw [length_placeAll]
  omega

/-- The entries of a history and those that a history which forgets nothing shows of the same
quotes differ in the oldest one alone. -/
theorem entries_forgotten {room : Nat} (capacity : Nat) {moves : List Move}
    (fits : (moves.flatMap Move.added).length ≤ room) :
    let kept := ((empty capacity).run moves).entries
    let whole := ((empty room).run moves).entries
    ∃ oldest : Option Entry, ∃ newer : List Entry,
      kept = (oldest.map Entry.alone).toList ++ newer ∧
        whole.drop (whole.length - kept.length) = oldest.toList ++ newer := by
  intro kept whole
  obtain ⟨n, capacity_eq⟩ : ∃ n, max capacity 1 = n + 1 := ⟨max capacity 1 - 1, by omega⟩
  let all := paired (placeAll (moves.flatMap Move.added))
  have kept_eq : kept = (all[n]?.map Entry.alone).toList ++ (all.take n).reverse := by
    show List.reverse _ = _
    rw [backward_run, capacity_eq, paired_take, List.reverse_append]
    cases all[n]? <;> rfl
  have whole_eq : whole = all.reverse := congrArg List.reverse (backward_run_of_room fits)
  have kept_length : kept.length = min (n + 1) all.length := by
    rw [length_entries_run, capacity_eq, length_paired, length_placeAll]
  refine ⟨all[n]?, (all.take n).reverse, kept_eq, ?_⟩
  calc whole.drop (whole.length - kept.length)
      = (all.take (all.length - (all.length - kept.length))).reverse := by
        rw [whole_eq, List.length_reverse, List.drop_reverse]
    _ = (all.take (n + 1)).reverse := by
        rw [kept_length, Nat.sub_sub_self (Nat.min_le_right ..), ← List.take_eq_take_min]
    _ = all[n]?.toList ++ (all.take n).reverse := by
        rw [List.take_add_one, List.reverse_append]
        cases all[n]? <;> rfl

/-- **What forgetting changes.** Let a history of any capacity and one with room for everything be
made of the same quotes, in any order. The first shows the newest of the quotes that the second
does, as many as its capacity admits. All of these but the oldest tell the same in both, whether a
trade is reported and against which side, since they are seen with the same quote before them. The
oldest does so exactly when, if it has a quote before it in the second history and is made when a
trade was, the traded volume moved and neither side of the book before it was at the price of the
trade. -/
theorem kept_agree_iff (capacity room : Nat) (moves : List Move)
    (fits : (moves.flatMap Move.added).length ≤ room) :
    let kept := ((empty capacity).run moves).entries
    let whole := ((empty room).run moves).entries
    let same := whole.drop (whole.length - kept.length)
    kept.length = min (max capacity 1) whole.length ∧
      kept.map Entry.quote = same.map Entry.quote ∧ kept.tail = same.tail ∧
      (kept.map Entry.isTrade = same.map Entry.isTrade ∧
          kept.map Entry.side = same.map Entry.side ↔
        ∀ e ∈ same.head?, ∀ p ∈ e.prev, e.quote.tickTime = e.quote.tradeTime →
          p.turnoverVolume ≠ e.quote.turnoverVolume ∧
            p.ask.same e.quote.last = false ∧ p.bid.same e.quote.last = false) := by
  intro kept whole same
  have shown : kept.length = min (max capacity 1) whole.length := by
    rw [length_entries_run, length_entries_run]
    omega
  obtain ⟨oldest, newer, kept_eq, same_eq⟩ := entries_forgotten capacity fits
  refine ⟨shown, ?_⟩
  cases oldest with
  | some e =>
    have kept_eq : kept = e.alone :: newer := kept_eq
    have same_eq : same = e :: newer := same_eq
    rw [kept_eq, same_eq]
    refine ⟨rfl, rfl, ?_⟩
    simp only [List.map_cons, List.cons.injEq, and_true, List.head?_cons, Option.mem_some,
      forall_eq']
    exact e.alone_agrees_iff
  | none =>
    -- Nothing was forgotten, so the oldest quote has none before it in either history.
    have kept_eq : kept = newer := kept_eq
    have same_eq : same = newer := same_eq
    rw [same_eq, ← kept_eq]
    refine ⟨rfl, rfl, iff_of_true ⟨rfl, rfl⟩ ?_⟩
    intro e oldest p before
    rw [prev_of_head? (Option.mem_def.mp oldest)] at before
    cases before

/-- The second of three quotes comes last, when the first one is forgotten for it: its trade was
against neither side of the book, so it is told the same. -/
theorem kept_agree_sample :
    let low : Binary64 := ⟨false, 1, by decide⟩
    let high : Binary64 := ⟨false, 3, by decide⟩
    let quote : Int64 → Int64 → Binary64 → Quote := fun time turnoverVolume last =>
      { identifier := "A", market := 1, ask := high, bid := low, last, turnoverVolume,
        tickTime := time, tradeTime := time }
    let moves : List Move :=
      [.append (quote 1 5 low), .extend [quote 3 9 high, quote 2 7 ⟨false, 2, by decide⟩]]
    let kept := ((empty 2).run moves).entries
    let whole := ((empty 3).run moves).entries
    (moves.flatMap Move.added).length ≤ 3 ∧
      kept.map Entry.isTrade = (whole.drop 1).map Entry.isTrade ∧
      kept.map Entry.side = [.unknown, .ask] ∧
      whole.map Entry.side = [.unknown, .unknown, .ask] := by
  intro low high quote moves kept whole
  have agree := (kept_agree_iff 2 3 moves (by decide)).2.2.2.mpr (by decide)
  exact ⟨by decide, agree.1, by decide, by decide⟩

/-- A history of one that forgets a quote takes the next one for a trade, although no volume was
traded between them, as a history that forgets nothing tells. -/
theorem forgotten_quote_makes_trade :
    let quote : Int64 → Quote := fun time =>
      { identifier := "A", market := 1, tickTime := time, tradeTime := time, turnoverVolume := 5 }
    let moves : List Move := [.append (quote 1), .append (quote 2)]
    let kept := ((empty 1).run moves).entries
    let whole := ((empty 2).run moves).entries
    kept.map Entry.quote = [quote 2] ∧ kept.map Entry.isTrade = [true] ∧
      whole.map Entry.quote = [quote 1, quote 2] ∧ whole.map Entry.isTrade = [true, false] :=
  ⟨by decide, by decide, by decide, by decide⟩

end MarketStream.Quote.History
