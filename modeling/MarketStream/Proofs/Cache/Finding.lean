import MarketStream.Proofs.Cache.Belonging
import MarketStream.Proofs.Registry.Arguments
import MarketStream.Proofs.Registry.Requests

/-!
# Finding the snapshot of a stream that was asked for

A stream is spelled three times: in the key that a client asks with, in the arguments that go to the
feed, and in the payloads that come back, from which the key of the snapshot is made. The market of an
instrument goes as a number and comes back as that number is written, so the snapshot is found under
the key that was asked with if the market was spelled that way, and only then.

* `StreamKey.Answers` — a payload names the stream of some arguments;
* `StreamKey.ofPayload_eq_stateKey_iff` — when such a payload is filed under the key itself;
* `Aggregator.get?_hear` — what is found under a key after a payload came;
* `Aggregator.subscribed_snapshot_found_iff` — when what comes is found by those who asked for it.
-/

namespace MarketStream

namespace StreamKey

/-! ## Keys made from payloads -/

/-- A stream of an instrument, whose market is a number. -/
def IsInstrument (k : StreamKey) : Prop := k.kind ∈ [.price, .depth, .trade, .tradingStatus]

instance (k : StreamKey) : Decidable k.IsInstrument := inferInstanceAs (Decidable (_ ∈ _))

/-- The market of an instrument is spelled as numbers are written. -/
def IsWritten (k : StreamKey) : Prop := k.IsInstrument → k.Plain

/-- One of the arguments of a command. -/
def argument? (name : String) : Json.Value → Option Json.Value
  | .object ms => Json.Members.find? name ms
  | _ => none

/-- A payload names the stream of the arguments `v`: news by its source, anything else by instrument
and market, each being the very value of the argument. -/
def Answers (k : StreamKey) (v : Json.Value) (u : Json.Members) : Prop :=
  if k.kindName = Frame.Kind.news.name then u.find? "source_id" = argument? "s" v
  else u.find? "i" = argument? "i" v ∧ u.find? "m" = argument? "m" v

instance (k : StreamKey) (v : Json.Value) (u : Json.Members) : Decidable (k.Answers v u) :=
  inferInstanceAs (Decidable (ite ..))

variable {k : StreamKey} {v : Json.Value} {u : Json.Members}

/-- The market goes as a number exactly for the streams of instruments. -/
theorem isInstrument_iff (built : k.args = .ok v) :
    k.IsInstrument ↔ ∃ n, argument? "m" v = some (.ofInt64 n) := by
  rw [args] at built
  rw [IsInstrument]
  cases kind : k.kind with
  | price | depth | trade | tradingStatus =>
    rw [kind] at built
    refine iff_of_true (by decide) ?_
    cases number : k.marketNumber? with
    | none =>
      rw [number] at built
      cases built
    | some n =>
      rw [number] at built
      obtain rfl := Except.ok.inj built
      exact ⟨n, rfl⟩
  | indicator =>
    rw [kind] at built
    obtain rfl := Except.ok.inj built
    refine iff_of_false (by decide) ?_
    rintro ⟨n, eq⟩
    cases eq
  | news =>
    rw [kind] at built
    refine iff_of_false (by decide) ?_
    rintro ⟨n, eq⟩
    cases own : k.source with
    | none =>
      rw [own] at built
      cases built
    | some source =>
      rw [own] at built
      obtain rfl := Except.ok.inj built
      cases eq
  | order | heartbeat | other =>
    rw [kind] at built
    cases built

/-- A number in a payload stands in a key as numbers are written. -/
theorem fieldText_ofInt64 (n : Int64) :
    fieldText (some (.ofInt64 n)) = String.ofList (Text.integer n.toInt) := rfl

/-- A number in a payload is the number of a key. -/
theorem fieldNumber?_ofInt64 (n : Int64) : fieldNumber? (some (.ofInt64 n)) = some n := by
  have fits : n.toInt ≤ Int64.maxValue.toInt := Int64.toInt_le n
  show (if n.toInt ≤ Int64.maxValue.toInt then _ else _) = _
  rw [if_pos fits]
  exact congrArg some (Int64.ofInt_toInt n)

/-- **Where an answer is filed.** A payload that names the stream of a key is filed under the key,
unless the key is of an instrument whose market is not spelled as numbers are written. -/
theorem ofPayload_eq_stateKey_iff (built : k.args = .ok v) (answers : k.Answers v u) :
    ofPayload k.kindName u = k.stateKey ↔ k.IsWritten := by
  rw [Answers] at answers
  rw [ofPayload, stateKey, normalized, IsWritten, isInstrument_iff built]
  cases asked_of_args built with
  | instrument n other number =>
    rw [if_neg other] at answers
    -- However the number was spelled in the key, it comes back as numbers are written.
    have there : argument? "m" (.object [("i", .string k.identifier), ("m", .ofInt64 n),
        ("t", .string k.kindName)]) = some (.ofInt64 n) := rfl
    have written_iff : k.Plain ↔ String.ofList (Text.integer n.toInt) = k.market := by
      constructor
      · intro plain
        exact (plain n number).symm
      · intro eq m same
        obtain rfl := Option.some.inj (number.symm.trans same)
        exact eq.symm
    rw [if_neg other, if_neg other, answers.1, answers.2, there, fieldText_ofInt64, written_iff]
    have identifier : fieldText (argument? "i" (.object [("i", .string k.identifier),
        ("m", .ofInt64 n), ("t", .string k.kindName)])) = k.identifier := rfl
    rw [identifier]
    simp
  | indicator other =>
    rw [if_neg other] at answers
    rw [if_neg other, if_neg other, answers.1, answers.2]
    refine iff_of_true rfl ?_
    rintro ⟨n, eq⟩
    cases eq
  | news source news own =>
    rw [if_pos news] at answers
    have there : fieldNumber? (argument? "s" (.object [("delay", .bool k.delay),
        ("s", .ofInt64 source), ("t", .string k.kindName)])) = k.source :=
      (fieldNumber?_ofInt64 source).trans own.symm
    rw [if_pos news, if_pos news, answers, there]
    refine iff_of_true rfl ?_
    rintro ⟨n, eq⟩
    cases eq

theorem stateKey_normalized (k : StreamKey) : k.normalized.stateKey = k.stateKey := by
  rw [stateKey, normalized_normalized, stateKey]

/-- The fields that the kind of a key does not use are not used in its arguments. -/
theorem args_normalized (k : StreamKey) : k.normalized.args = k.args := by
  have name : k.kind.name = k.kindName := Frame.Kind.name_ofName k.kindName
  by_cases news : k.kindName = Frame.Kind.news.name
  · have normal : k.normalized = ⟨k.kindName, "", "", k.source, k.delay⟩ := if_pos news
    have kind : k.kind = .news := by rw [StreamKey.kind, news]; rfl
    have kind' : k.normalized.kind = .news := normal ▸ kind
    rw [args, args, kind, kind', normal]
  · have normal : k.normalized = ⟨k.kindName, k.identifier, k.market, none, false⟩ := if_neg news
    have kind' : k.normalized.kind = k.kind := by rw [normal]; rfl
    have number : k.normalized.marketNumber? = k.marketNumber? := by rw [normal]; rfl
    -- The source and the delay are gone, and no kind but news sends them.
    rw [args, args, kind', number, congrArg kindName normal, congrArg identifier normal,
      congrArg market normal]
    cases kind : k.kind with
    | news =>
      rw [kind] at name
      exact absurd name.symm news
    | price | depth | trade | tradingStatus | indicator | order | heartbeat | other => rfl

end StreamKey

/-! ## What is found -/

namespace Aggregator

variable {a : Aggregator} {k : StreamKey} {f : Frame} {u : Json.Members} {v : Json.Value}

/-- What a stream that can be asked for brings on the public channel is filed. -/
theorem isFiled_of_args (built : k.args = .ok v) : isFiled .public k.kind = true := by
  rw [StreamKey.args] at built
  cases kind : k.kind with
  | price | depth | trade | tradingStatus | indicator | news => rfl
  | order | heartbeat | other =>
    rw [kind] at built
    cases built

/-- What is found under a key after a payload came on the public channel: the payload merged into what
there was, if it is filed under the key, and else what there was. -/
theorem get?_hear (built : k.args = .ok v) (kind : f.kindName = k.kindName)
    (read : f.members? = some u) (now : Moment) :
    (a.hear ⟨now, .public, f⟩).cache.get? k =
      if StreamKey.ofPayload k.kindName u = k.stateKey then
        some (((a.cache.get? k).map (·.update u)).getD u)
      else a.cache.get? k := by
  have filed : isFiled .public f.kind = true := by
    rw [Frame.kind, kind]
    exact isFiled_of_args built
  have write : streamWrite? ⟨now, .public, f⟩ = some (.ofPayload k.kindName u, u) := by
    rw [streamWrite?, if_pos filed, read, kind]
    rfl
  rw [hear_cache, write, Cache.get?, Filed.write, Filed.find?_put, Cache.get?]
  exact if_congr eq_comm rfl rfl

/-- A key that can be asked for is answered with what is cached under it, if the public channel is up. -/
theorem subscribe_result {c : Command} (built : k.command "subscribe" = .ok c) :
    ∃ id, (a.subscribe k).2 = if a.isConnected .public then .ok ⟨id, a.cache.get? k⟩
      else .error (.notConnected .public) := by
  have normal : k.normalized.command "subscribe" = .ok c := by
    rw [StreamKey.command_eq_ok] at built ⊢
    rwa [StreamKey.args_normalized]
  rw [subscribe_of_ok normal, Cache.get?, StreamKey.stateKey_normalized]
  exact ⟨_, rfl⟩

/-- **What comes is found by those who asked for it, if they spell its market as it comes.** Take any
key that can be asked for and any payload that names the stream of its arguments. The payload is filed
under the key, unless the key is of an instrument whose market is not spelled as numbers are written.
If it is, then in any state, once the payload came on the public channel, the key finds the snapshot
that the payload was merged into, with every field that the payload has, and so does who subscribes to
the key, if the channel is up. If it is not, the key finds what it did before. -/
theorem subscribed_snapshot_found_iff {c : Command} (built : k.command "subscribe" = .ok c)
    (answers : k.Answers c.args u) :
    (StreamKey.ofPayload k.kindName u = k.stateKey ↔ k.IsWritten) ∧
    ∀ (a : Aggregator) (now : Moment) (f : Frame), f.kindName = k.kindName → f.members? = some u →
      let heard := a.hear ⟨now, .public, f⟩
      (k.IsWritten →
        ∃ s, s = ((a.cache.get? k).map (·.update u)).getD u ∧
          (∀ name x, u.find? name = some x → Json.Members.find? name s = some x) ∧
          heard.last k = .ok s ∧
          ∃ id, (heard.subscribe k).2 = if a.isConnected .public then .ok ⟨id, some s⟩
            else .error (.notConnected .public)) ∧
      (¬ k.IsWritten → heard.cache.get? k = a.cache.get? k) := by
  have args : k.args = .ok c.args := (StreamKey.command_eq_ok.mp built).1
  have filed_iff := StreamKey.ofPayload_eq_stateKey_iff args answers
  refine ⟨filed_iff, fun a now f kind read => ⟨fun written => ?_, fun unwritten => ?_⟩⟩
  · have got : (a.hear ⟨now, .public, f⟩).cache.get? k
        = some (((a.cache.get? k).map (·.update u)).getD u) := by
      rw [get?_hear args kind read, if_pos (filed_iff.mpr written)]
    obtain ⟨id, answer⟩ := subscribe_result (a := a.hear ⟨now, .public, f⟩) built
    refine ⟨_, rfl, fun name x there => ?_, ?_, id, ?_⟩
    · cases a.cache.get? k with
      | none => exact there
      | some before =>
        show Json.Members.find? name (before.update u) = some x
        rw [Snapshot.find?_update (ascending_of_members? read), there]
        rfl
    · rw [last, got]
    · rw [answer, got]
      rfl
  · rw [get?_hear args kind read, if_neg (mt filed_iff.mp unwritten)]

/-- A trade of an instrument on a market with a negative number, after another one. -/
theorem subscribed_snapshot_found_iff_sample :
    let k : StreamKey := ⟨"trade", "A", "-5", some 3, true⟩
    let f : Frame := ⟨"trade", "\x7b\"m\":-5,\"volume\":7,\"i\":\"A\"\x7d", 0⟩
    let u : Json.Members := [("i", .string "A"), ("m", .ofInt64 (-5)), ("volume", .ofInt64 7)]
    let c : Command := ⟨"subscribe", .ofList
      [("t", .string "trade"), ("i", .string "A"), ("m", .ofInt64 (-5))]⟩
    k.command "subscribe" = .ok c ∧ k.Answers c.args u ∧ f.members? = some u ∧
      ((fresh .standard fun _ => "").hear ⟨⟨0, ""⟩, .public, f⟩).last k = .ok u := by
  intro k f u c
  have built : k.command "subscribe" = .ok c := by decide +kernel
  have answers : k.Answers c.args u := by decide
  have read : f.members? = some u := by decide +kernel
  obtain ⟨written_iff, found⟩ := subscribed_snapshot_found_iff built answers
  have written : k.IsWritten := written_iff.mp (by decide)
  obtain ⟨s, rfl, -, last, -⟩ := (found (fresh .standard fun _ => "") ⟨0, ""⟩ f rfl read).1 written
  exact ⟨built, answers, read, last⟩

/-- A stream that was asked for with a zero before the number of its market is not found, although its
payload came. -/
theorem respelled_market_not_found :
    let k : StreamKey := ⟨"price", "A", "01", none, false⟩
    let f : Frame := ⟨"price", "\x7b\"i\":\"A\",\"m\":1,\"bid\":2\x7d", 0⟩
    let u : Json.Members := [("bid", .ofInt64 2), ("i", .string "A"), ("m", .ofInt64 1)]
    let c : Command := ⟨"subscribe", .ofList
      [("t", .string "price"), ("i", .string "A"), ("m", .ofInt64 1)]⟩
    k.command "subscribe" = .ok c ∧ k.Answers c.args u ∧ f.members? = some u ∧
      StreamKey.ofPayload k.kindName u ≠ k.stateKey ∧
      ((fresh .standard fun _ => "").hear ⟨⟨0, ""⟩, .public, f⟩).last k
        = .error (.notFound "item price:A:01") := by
  intro k f u c
  exact ⟨by decide +kernel, by decide, by decide +kernel, by decide, by decide +kernel⟩

end Aggregator

end MarketStream
