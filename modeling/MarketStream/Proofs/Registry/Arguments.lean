import MarketStream.StreamKey

/-!
# Streams with the same arguments

The arguments of a stream's commands hold all of its key, save that the market of an instrument goes
as a number, which can be spelled in several ways.

* `StreamKey.Asked` — the arguments of a stream, kind by kind;
* `StreamKey.Respelled` — keys that differ in how a market is spelled;
* `StreamKey.eq_or_respelled_of_args` — these are the only keys with the same arguments;
* `StreamKey.Plain` — the market is spelled as numbers are written, which leaves no choice.
-/

namespace MarketStream.StreamKey

/-- The arguments of a stream, kind by kind. -/
inductive Asked (k : StreamKey) : Json.Value → Prop where
  /-- A stream of an instrument on a market. -/
  | instrument (n : Int64) (name : k.kindName ≠ Frame.Kind.news.name)
    (number : k.marketNumber? = some n) :
    Asked k (.object [("i", .string k.identifier), ("m", .ofInt64 n), ("t", .string k.kindName)])
  /-- An indicator. -/
  | indicator (name : k.kindName ≠ Frame.Kind.news.name) :
    Asked k (.object [("i", .string k.identifier), ("m", .string k.market), ("t", .string k.kindName)])
  /-- News of a source. -/
  | news (source : Int64) (name : k.kindName = Frame.Kind.news.name) (own : k.source = some source) :
    Asked k (.object [("delay", .bool k.delay), ("s", .ofInt64 source), ("t", .string k.kindName)])

theorem asked_of_number {k : StreamKey} {v : Json.Value} {e : Fault}
    (other : k.kindName ≠ Frame.Kind.news.name)
    (h : (match k.marketNumber? with
      | some market => Except.ok (Json.Value.ofList
        [("t", .string k.kindName), ("i", .string k.identifier), ("m", .ofInt64 market)])
      | none => .error e) = .ok v) : k.Asked v := by
  cases number : k.marketNumber? with
  | none =>
    rw [number] at h
    cases h
  | some n =>
    rw [number] at h
    exact Except.ok.inj h ▸ .instrument n other number

/-- The arguments of the commands of a stream are those of its kind. -/
theorem asked_of_args {k : StreamKey} {v : Json.Value} (h : k.args = .ok v) : k.Asked v := by
  have name : k.kind.name = k.kindName := Frame.Kind.name_ofName k.kindName
  rw [args] at h
  cases kind : k.kind with
  | price | depth | trade | tradingStatus =>
    rw [kind] at h name
    exact asked_of_number (name ▸ by decide) h
  | indicator =>
    rw [kind] at h name
    exact Except.ok.inj h ▸ .indicator (name ▸ by decide)
  | news =>
    rw [kind] at h name
    cases own : k.source with
    | none =>
      rw [own] at h
      cases h
    | some source =>
      rw [own] at h
      exact Except.ok.inj h ▸ .news source name.symm own
  | order | heartbeat | other =>
    rw [kind] at h
    cases h

/-- The command of a stream has its arguments. -/
theorem command_eq_ok {k : StreamKey} {action : String} {c : Command} :
    k.command action = .ok c ↔ k.args = .ok c.args ∧ action = c.name := by
  rw [command]
  cases k.args with
  | error e =>
    constructor
    · intro h
      cases h
    · rintro ⟨h, -⟩
      cases h
  | ok args =>
    constructor
    · rintro ⟨⟩
      exact ⟨rfl, rfl⟩
    · rintro ⟨⟨⟩, rfl⟩
      rfl

/-! ## Keys with the same arguments -/

/-- The keys of one stream of an instrument whose market is spelled in two ways. -/
structure Respelled (k l : StreamKey) : Prop where
  /-- The kind is the same. -/
  kindName : k.kindName = l.kindName
  /-- The instrument is the same. -/
  identifier : k.identifier = l.identifier
  /-- The markets are spelled differently. -/
  market : k.market ≠ l.market
  /-- They are the same number. -/
  number : ∃ n, k.marketNumber? = some n ∧ l.marketNumber? = some n

theorem ofInt64_injective : Function.Injective Json.Value.ofInt64 := fun _ _ h =>
  Int64.toInt_inj.mp (congrArg Json.Integer.val (Json.Value.integer.inj h))

section

variable {k l : StreamKey} {v : Json.Value}

theorem eq_of_normal_news (hk : k.normalized = k) (hl : l.normalized = l)
    (news : k.kindName = Frame.Kind.news.name) (kindName : k.kindName = l.kindName)
    (source : k.source = l.source) (delay : k.delay = l.delay) : k = l := by
  rw [← hk, ← hl, normalized, normalized, if_pos news, if_pos (kindName ▸ news), kindName, source,
    delay]

theorem eq_of_normal (hk : k.normalized = k) (hl : l.normalized = l)
    (other : k.kindName ≠ Frame.Kind.news.name) (kindName : k.kindName = l.kindName)
    (identifier : k.identifier = l.identifier) (market : k.market = l.market) : k = l := by
  rw [← hk, ← hl, normalized, normalized, if_neg other, if_neg (kindName ▸ other), kindName,
    identifier, market]

theorem Asked.eq_or_respelled (asked : k.Asked v) (same : l.Asked v) (hk : k.normalized = k)
    (hl : l.normalized = l) : k = l ∨ k.Respelled l := by
  generalize eq : v = w at same
  cases asked with
  | instrument n other number =>
    cases same with
    | instrument m _ number' =>
      obtain ⟨identifier, value, kindName⟩ : k.identifier = l.identifier ∧
          Json.Value.ofInt64 n = .ofInt64 m ∧ k.kindName = l.kindName := by simpa using eq
      by_cases market : k.market = l.market
      · exact .inl (eq_of_normal hk hl other kindName identifier market)
      · exact .inr ⟨kindName, identifier, market, n, number, ofInt64_injective value ▸ number'⟩
    | indicator => simp [Json.Value.ofInt64] at eq
    | news => simp at eq
  | indicator other =>
    cases same with
    | instrument => simp [Json.Value.ofInt64] at eq
    | indicator =>
      obtain ⟨identifier, market, kindName⟩ : k.identifier = l.identifier ∧
          k.market = l.market ∧ k.kindName = l.kindName := by simpa using eq
      exact .inl (eq_of_normal hk hl other kindName identifier market)
    | news => simp at eq
  | news source news own =>
    cases same with
    | instrument => simp at eq
    | indicator => simp at eq
    | news source' _ own' =>
      obtain ⟨delay, value, kindName⟩ : k.delay = l.delay ∧
          Json.Value.ofInt64 source = .ofInt64 source' ∧ k.kindName = l.kindName := by simpa using eq
      have sources : k.source = l.source := own.trans (ofInt64_injective value ▸ own'.symm)
      exact .inl (eq_of_normal_news hk hl news kindName sources delay)

/-- Keys with the same arguments are the same, or differ in how a market is spelled. -/
theorem eq_or_respelled_of_args (hk : k.normalized = k) (hl : l.normalized = l)
    (args : k.args = .ok v) (same : l.args = .ok v) : k = l ∨ k.Respelled l :=
  (asked_of_args args).eq_or_respelled (asked_of_args same) hk hl

/-! ## Plain markets -/

/-- The market is spelled as numbers are written, if it is a number. -/
def Plain (k : StreamKey) : Prop :=
  ∀ n, k.marketNumber? = some n → k.market = String.ofList (Text.integer n.toInt)

theorem plain_of_number {n : Int64} (number : k.marketNumber? = some n)
    (spelled : k.market = String.ofList (Text.integer n.toInt)) : k.Plain := fun m number' => by
  obtain rfl := Option.some.inj (number.symm.trans number')
  exact spelled

theorem Plain.normalized (h : k.Plain) : k.normalized.Plain := by
  by_cases news : k.kindName = Frame.Kind.news.name
  · intro n number
    rw [StreamKey.normalized, if_pos news] at number
    cases number
  · rw [StreamKey.normalized, if_neg news]
    exact h

/-- A plain market cannot be spelled in another way. -/
theorem Respelled.not_plain (h : k.Respelled l) (plain : k.Plain) : ¬ l.Plain := fun plain' => by
  obtain ⟨n, number, number'⟩ := h.number
  exact h.market ((plain n number).trans (plain' n number').symm)

end

end MarketStream.StreamKey
