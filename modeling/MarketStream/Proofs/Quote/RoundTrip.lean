import MarketStream.Indicator
import MarketStream.Proofs.Decimal.Comparison
import MarketStream.Proofs.Json.Columns
import MarketStream.Quote
import MarketStream.Trade

/-!
# Market data survives being written

The records of market data are sparse: each field that is zero or empty is left out, and a field that
is left out is read as zero or empty. So if the measured numbers that are written are read back,
whatever is left out of a record, it is read back as it was, but for the signs of zeros, which are left
out with them.

* `Quote.decode?_write`, `Trade.decode?_write`, `Indicator.decode?_write` — what is read back;
* `market_data_survives` — and that it is the same.
-/

namespace MarketStream

open Json Columns

/-! ## Quotes -/

namespace Quote

/-- What is written of a quote. -/
def columns (q : Quote) : Columns :=
  [("i", textColumn q.identifier), ("m", wholeColumn q.market), ("ask", measureColumn q.ask),
    ("ask_volume", measureColumn q.askVolume), ("bid", measureColumn q.bid),
    ("bid_volume", measureColumn q.bidVolume), ("open", measureColumn q.opening),
    ("high", measureColumn q.high), ("low", measureColumn q.low), ("last", measureColumn q.last),
    ("last_volume", wholeColumn q.lastVolume), ("close", measureColumn q.close),
    ("ep", measureColumn q.equilibrium), ("imbalance", wholeColumn q.imbalance),
    ("paired", wholeColumn q.paired), ("turnover", measureColumn q.turnover),
    ("turnover_volume", wholeColumn q.turnoverVolume), ("vwap", measureColumn q.vwap),
    ("tick_timestamp", wholeColumn q.tickTime), ("trade_timestamp", wholeColumn q.tradeTime)]

theorem write_eq (q : Quote) : q.write = record q.columns.present := by
  simp only [write, sparseText_eq, sparseWhole_eq, sparseMeasure_eq, ← present_append,
    List.cons_append, List.nil_append, columns]

theorem areValues_columns (q : Quote) : q.columns.AreValues := by
  simp only [columns, areValues_textColumn, areValues_wholeColumn, areValues_measureColumn,
    areValues_nil]

/-- The measured numbers of a quote. -/
def measures (q : Quote) : List Binary64 :=
  [q.ask, q.askVolume, q.bid, q.bidVolume, q.opening, q.high, q.low, q.last, q.close, q.equilibrium,
    q.turnover, q.vwap]

/-- A quote is read back from its text, but for the signs of zeros, if its measured numbers are. -/
theorem decode?_write {q : Quote} (back : ∀ x ∈ q.measures, x.isZero = false → ReadsBack x) :
    decode? (utf8 q.write) = some q.unsignedZeros := by
  simp only [measures, List.forall_mem_cons] at back
  obtain ⟨ask, askVolume, bid, bidVolume, opening, high, low, last, close, equilibrium, turnover, vwap,
    -⟩ := back
  rw [decode?, write_eq]
  -- One step for each field, in the order in which they are declared.
  exact decode_then q.areValues_columns (by simp [columns]) <| read_then (textOr_fields rfl) <|
    read_then (wholeOr_fields rfl) <| read_then (measureOr_fields rfl ask) <|
    read_then (measureOr_fields rfl askVolume) <| read_then (measureOr_fields rfl bid) <|
    read_then (measureOr_fields rfl bidVolume) <| read_then (measureOr_fields rfl opening) <|
    read_then (measureOr_fields rfl high) <| read_then (measureOr_fields rfl low) <|
    read_then (measureOr_fields rfl last) <| read_then (wholeOr_fields rfl) <|
    read_then (measureOr_fields rfl close) <| read_then (measureOr_fields rfl equilibrium) <|
    read_then (wholeOr_fields rfl) <| read_then (wholeOr_fields rfl) <|
    read_then (measureOr_fields rfl turnover) <| read_then (wholeOr_fields rfl) <|
    read_then (measureOr_fields rfl vwap) <| read_then (wholeOr_fields rfl) <|
    read_then (wholeOr_fields rfl) <| rfl

end Quote

/-! ## Trades -/

namespace Trade

/-- What is written of a trade. -/
def columns (t : Trade) : Columns :=
  [("i", textColumn t.identifier), ("m", wholeColumn t.market),
    ("trade_timestamp", wholeColumn t.time), ("trade_type", textColumn t.type),
    ("trade_id", textColumn t.id), ("price", measureColumn t.price), ("volume", wholeColumn t.volume),
    ("broker_buying", textColumn t.buyer), ("broker_selling", textColumn t.seller)]

theorem write_eq (t : Trade) : t.write = record t.columns.present := by
  simp only [write, sparseText_eq, sparseWhole_eq, sparseMeasure_eq, ← present_append,
    List.cons_append, List.nil_append, columns]

theorem areValues_columns (t : Trade) : t.columns.AreValues := by
  simp only [columns, areValues_textColumn, areValues_wholeColumn, areValues_measureColumn,
    areValues_nil]

/-- A trade is read back from its text, but for the sign of a zero, if its price is. -/
theorem decode?_write {t : Trade} (back : t.price.isZero = false → ReadsBack t.price) :
    decode? (utf8 t.write) = some { t with price := t.price.unsignedZero } := by
  rw [decode?, write_eq]
  exact decode_then t.areValues_columns (by simp [columns]) <| read_then (textOr_fields rfl) <|
    read_then (wholeOr_fields rfl) <| read_then (wholeOr_fields rfl) <|
    read_then (textOr_fields rfl) <| read_then (textOr_fields rfl) <|
    read_then (measureOr_fields rfl back) <| read_then (wholeOr_fields rfl) <|
    read_then (textOr_fields rfl) <| read_then (textOr_fields rfl) <| rfl

end Trade

/-! ## Indicators -/

namespace Indicator

/-- What is written of an indicator. -/
def columns (v : Indicator) : Columns :=
  [("i", textColumn v.identifier), ("m", textColumn v.market),
    ("tick_timestamp", wholeColumn v.tickTime), ("open", measureColumn v.opening),
    ("high", measureColumn v.high), ("low", measureColumn v.low), ("last", measureColumn v.last),
    ("close", measureColumn v.close)]

theorem write_eq (v : Indicator) : v.write = record v.columns.present := by
  simp only [write, sparseText_eq, sparseWhole_eq, sparseMeasure_eq, ← present_append,
    List.cons_append, List.nil_append, columns]

theorem areValues_columns (v : Indicator) : v.columns.AreValues := by
  simp only [columns, areValues_textColumn, areValues_wholeColumn, areValues_measureColumn,
    areValues_nil]

/-- The measured numbers of an indicator. -/
def measures (v : Indicator) : List Binary64 := [v.opening, v.high, v.low, v.last, v.close]

/-- An indicator is read back from its text, but for the signs of zeros, if its measured numbers
are. -/
theorem decode?_write {v : Indicator} (back : ∀ x ∈ v.measures, x.isZero = false → ReadsBack x) :
    decode? (utf8 v.write) = some v.unsignedZeros := by
  simp only [measures, List.forall_mem_cons] at back
  obtain ⟨opening, high, low, last, close, -⟩ := back
  rw [decode?, write_eq]
  exact decode_then v.areValues_columns (by simp [columns]) <| read_then (textOr_fields rfl) <|
    read_then (textOr_fields rfl) <| read_then (wholeOr_fields rfl) <|
    read_then (measureOr_fields rfl opening) <| read_then (measureOr_fields rfl high) <|
    read_then (measureOr_fields rfl low) <| read_then (measureOr_fields rfl last) <|
    read_then (measureOr_fields rfl close) <| rfl

end Indicator

/-! ## Market data -/

/-- **Market data survives being written.** Take any quote, any trade and any indicator whose measured
numbers are read back from their texts, the zeros among them apart, which are not written. It is read
back from its text, whatever subset of its fields is left out, and what is read is the same: texts and
whole numbers are identical, and measured numbers are so once zeros are positive, which is to say that
they denote the same numbers. -/
theorem market_data_survives :
    (∀ q : Quote, (∀ x ∈ q.measures, x.isZero = false → ReadsBack x) →
      ∃ r, Quote.decode? (utf8 q.write) = some r ∧ r.same q = true) ∧
    (∀ t : Trade, (t.price.isZero = false → ReadsBack t.price) →
      ∃ u, Trade.decode? (utf8 t.write) = some u ∧ u.same t = true) ∧
    (∀ v : Indicator, (∀ x ∈ v.measures, x.isZero = false → ReadsBack x) →
      ∃ w, Indicator.decode? (utf8 v.write) = some w ∧ w.same v = true) ∧
    ∀ x y : Binary64, x.unsignedZero = y.unsignedZero ↔ x.value = y.value := by
  refine ⟨fun q back => ⟨_, Quote.decode?_write back, ?_⟩,
    fun t back => ⟨_, Trade.decode?_write back, ?_⟩,
    fun v back => ⟨_, Indicator.decode?_write back, ?_⟩,
    fun x y => Binary64.unsignedZero_eq_iff_value_eq⟩
  · simp only [Quote.same, Quote.unsignedZeros, Binary64.unsignedZero_unsignedZero, beq_self_eq_true]
  · simp only [Trade.same, Binary64.unsignedZero_unsignedZero, beq_self_eq_true]
  · simp only [Indicator.same, Indicator.unsignedZeros, Binary64.unsignedZero_unsignedZero,
      beq_self_eq_true]

/-- A quote, a trade and an indicator with the prices 101.25 and 99.95, and with a negative zero. -/
theorem market_data_survives_sample :
    let high : Binary64 := ⟨false, 0x4059500000000000, by decide⟩
    let low : Binary64 := ⟨false, 0x4058FCCCCCCCCCCD, by decide⟩
    let minusZero : Binary64 := ⟨true, 0, by decide⟩
    let q : Quote := { identifier := "A", ask := high, bid := low, last := minusZero, tickTime := 7 }
    let t : Trade := { identifier := "A", price := low, volume := -2 }
    let v : Indicator := { market := "1", high, low, close := minusZero }
    (∃ r, Quote.decode? (utf8 q.write) = some r ∧ r.same q = true) ∧
      (∃ u, Trade.decode? (utf8 t.write) = some u ∧ u.same t = true) ∧
      ∃ w, Indicator.decode? (utf8 v.write) = some w ∧ w.same v = true := by
  intro high low minusZero q t v
  obtain ⟨quotes, trades, indicators, -⟩ := market_data_survives
  exact ⟨quotes q (by decide +kernel), trades t (by decide +kernel),
    indicators v (by decide +kernel)⟩

end MarketStream
