import MarketStream.Proofs.Cache.LastWrite

/-!
# Snapshots belong to their keys

The key of a snapshot is read off the payloads that are merged into it, and a merge may replace the
very fields that the key was read off, by values of another type. It never replaces them by fields
that would be filed elsewhere: every snapshot of a cache is filed where its own fields say.

* `Cache.Filing`, `Cache.filed` — frames to be merged, and the cache after any run of them;
* `StreamKey.ofPayload_update`, `Cache.orderKey_update` — what a merge leaves of a key;
* `Filed.All.put` — what holds of every entry after a merge;
* `Cache.belongs_filed` — every entry belongs to its key; `StreamKey.Alike` — keys of one snapshot;
* `Cache.snapshots_belong` — what any run of merges leaves, and what requests find.
-/

namespace MarketStream

/-! ## Runs of merges -/

namespace Cache

/-- A frame to be merged. -/
inductive Filing where
  /-- Into the snapshot of its stream. -/
  | stream (f : Frame)
  /-- Into the snapshot of its order. -/
  | order (f : Frame)

/-- The cache after a frame was merged. It stays as it is if that fails. -/
def file (c : Cache) : Filing → Cache
  | .stream f => Aggregator.afterMerge c (c.merge f)
  | .order f => Aggregator.afterMerge c (c.mergeOrder f)

/-- The cache after frames were merged one after another. -/
def filed (filings : List Filing) : Cache := filings.foldl file empty

namespace Filing

/-- What a frame writes into the snapshot of a stream. -/
def streamWrite? : Filing → Option (StreamKey × Json.Members)
  | .stream f => f.members?.map fun u => (.ofPayload f.kindName u, u)
  | .order _ => none

/-- What a frame writes into the snapshot of an order. -/
def orderWrite? : Filing → Option (String × Json.Members)
  | .stream _ => none
  | .order f => f.members?.bind fun u => (orderText? u).map fun key => (key, u)

theorem eq_of_streamWrite? {x : Filing} {key : StreamKey} {u : Json.Members}
    (h : x.streamWrite? = some (key, u)) :
    u.Ascending ∧ ∃ kindName, key = .ofPayload kindName u := by
  cases x with
  | order f => cases h
  | stream f =>
    obtain ⟨v, read, eq⟩ := Option.map_eq_some_iff.mp h
    obtain ⟨rfl, rfl⟩ := Prod.mk.inj eq
    exact ⟨Aggregator.ascending_of_members? read, f.kindName, rfl⟩

theorem eq_of_orderWrite? {x : Filing} {key : String} {u : Json.Members}
    (h : x.orderWrite? = some (key, u)) : u.Ascending ∧ orderText? u = some key := by
  cases x with
  | stream f => cases h
  | order f =>
    obtain ⟨v, read, h⟩ := Option.bind_eq_some_iff.mp h
    obtain ⟨text, named, eq⟩ := Option.map_eq_some_iff.mp h
    obtain ⟨rfl, rfl⟩ := Prod.mk.inj eq
    exact ⟨Aggregator.ascending_of_members? read, named⟩

end Filing

/-- A merge writes what its frame says, and nothing else. -/
theorem file_eq (c : Cache) (x : Filing) :
    c.file x = ⟨c.streams.write x.streamWrite?, c.orders.write x.orderWrite?⟩ := by
  cases x with
  | stream f => exact Aggregator.afterMerge_merge c f
  | order f => exact Aggregator.afterMerge_mergeOrder c f

end Cache

/-! ## What a merge leaves of a key -/

/-- A field that is read the same in the update and in the snapshot is read so in what comes of
them, whether the update has the field or not. -/
theorem Snapshot.read_update {α : Type} (read : Option Json.Value → α) {s : Snapshot}
    {u : Json.Members} (ascending : u.Ascending) {name : String}
    (same : read (Json.Members.find? name s) = read (Json.Members.find? name u)) :
    read (Json.Members.find? name (s.update u)) = read (Json.Members.find? name u) := by
  rw [Snapshot.find?_update ascending]
  cases there : Json.Members.find? name u with
  | none =>
    rw [there] at same
    exact same
  | some v => rfl

namespace StreamKey

/-- The key of a payload has no field that its kind does not use. -/
theorem stateKey_ofPayload (kindName : String) (u : Json.Members) :
    (ofPayload kindName u).stateKey = ofPayload kindName u := by
  by_cases news : kindName = Frame.Kind.news.name
  · simp [ofPayload, stateKey, normalized, news]
  · simp [ofPayload, stateKey, normalized, news]

theorem kindName_ofPayload (kindName : String) (u : Json.Members) :
    (ofPayload kindName u).kindName = kindName := by
  rw [ofPayload]
  split <;> rfl

/-- Merging a payload into a snapshot of the same key leaves the key. -/
theorem ofPayload_update {kindName : String} {s : Snapshot} {u : Json.Members}
    (ascending : u.Ascending) (same : ofPayload kindName s = ofPayload kindName u) :
    ofPayload kindName (s.update u) = ofPayload kindName u := by
  by_cases news : kindName = Frame.Kind.news.name
  · simp only [ofPayload, if_pos news, mk.injEq, true_and, and_true] at same ⊢
    exact Snapshot.read_update fieldNumber? ascending same
  · simp only [ofPayload, if_neg news, mk.injEq, true_and, and_true] at same ⊢
    obtain ⟨identifier, market⟩ := same
    exact ⟨Snapshot.read_update fieldText ascending identifier,
      Snapshot.read_update fieldText ascending market⟩

end StreamKey

/-- A field that an update brings, and not as null, is what comes of the update. -/
theorem Snapshot.held?_update {s : Snapshot} {u : Json.Members} (ascending : u.Ascending)
    {name text : String} (brought : held? u name = some text) :
    held? (s.update u) name = some text := by
  rw [← brought, held?, held?, Snapshot.find?_update ascending]
  cases there : Json.Members.find? name u with
  | none => simp [held?, there] at brought
  | some v => rfl

theorem orderText?_eq_some {u : Json.Members} {key : String} :
    orderText? u = some key ↔ ∃ account number, held? u "accno" = some account ∧
      held? u "order_id" = some number ∧ account ++ ":" ++ number = key := by
  rw [orderText?]
  cases held? u "accno" <;> cases held? u "order_id" <;> simp

/-- An order is filed under the text of its account and its number, if both are there. -/
theorem Cache.orderKey_eq_ok {u : Json.Members} {key : String} :
    Cache.orderKey u = .ok key ↔ orderText? u = some key := by
  rw [← toOption_orderKey]
  cases Cache.orderKey u <;> simp [Except.toOption]

/-- A payload that names its order leaves the name to the snapshot it is merged into. -/
theorem Snapshot.orderText?_update {s : Snapshot} {u : Json.Members} (ascending : u.Ascending)
    {key : String} (named : orderText? u = some key) : orderText? (s.update u) = some key := by
  obtain ⟨account, number, has_account, has_number, joined⟩ := orderText?_eq_some.mp named
  refine orderText?_eq_some.mpr ⟨account, number, ?_, ?_, joined⟩
  · exact Snapshot.held?_update ascending has_account
  · exact Snapshot.held?_update ascending has_number

/-! ## What holds of every entry -/

namespace Filed

variable {κ : Type} [DecidableEq κ] {P : κ → Snapshot → Prop} {filed : Filed κ}

/-- Something holds of every entry. -/
def All (P : κ → Snapshot → Prop) (filed : Filed κ) : Prop :=
  ∀ key s, (key, s) ∈ filed → P key s

omit [DecidableEq κ] in
theorem all_nil : All P ([] : Filed κ) := by
  intro key s h
  cases h

/-- After a merge there are the entries as they were, and that of its key. -/
theorem mem_put {key k : κ} {u : Json.Members} {s : Snapshot} (h : (k, s) ∈ put key u filed) :
    (k, s) ∈ filed ∨ k = key ∧ (s = u ∨ ∃ before, (key, before) ∈ filed ∧ s = before.update u) := by
  induction filed with
  | nil =>
    obtain ⟨rfl, rfl⟩ := Prod.mk.inj (List.mem_singleton.mp h)
    exact .inr ⟨rfl, .inl rfl⟩
  | cons entry rest ih =>
    obtain ⟨k', s'⟩ := entry
    rw [put] at h
    split at h
    · next same =>
      subst same
      rcases List.mem_cons.mp h with eq | later
      · obtain ⟨rfl, rfl⟩ := Prod.mk.inj eq
        exact .inr ⟨rfl, .inr ⟨s', List.mem_cons_self, rfl⟩⟩
      · exact .inl (List.mem_cons_of_mem _ later)
    · rcases List.mem_cons.mp h with eq | later
      · exact .inl (eq ▸ List.mem_cons_self)
      · rcases ih later with old | ⟨own, first | ⟨before, there, merged⟩⟩
        · exact .inl (List.mem_cons_of_mem _ old)
        · exact .inr ⟨own, .inl first⟩
        · exact .inr ⟨own, .inr ⟨before, List.mem_cons_of_mem _ there, merged⟩⟩

/-- What holds of a first payload and is kept by further ones holds of every entry. -/
theorem All.put (h : filed.All P) {key : κ} {u : Json.Members} (first : P key u)
    (further : ∀ s, P key s → P key (s.update u)) : All P (put key u filed) := by
  intro k s mem
  rcases mem_put mem with old | ⟨rfl, rfl | ⟨before, there, rfl⟩⟩
  · exact h k s old
  · exact first
  · exact further before (h k before there)

theorem All.write (h : filed.All P) {w : Option (κ × Json.Members)}
    (first : ∀ key u, w = some (key, u) → P key u)
    (further : ∀ key u, w = some (key, u) → ∀ s, P key s → P key (s.update u)) :
    All P (filed.write w) := by
  cases w with
  | none => exact h
  | some w => exact h.put (first w.1 w.2 rfl) (further w.1 w.2 rfl)

end Filed

/-! ## Every entry belongs to its key -/

/-- A snapshot is filed under the key that its own fields make. -/
def StreamKey.Owns (key : StreamKey) (s : Snapshot) : Prop :=
  ofPayload key.kindName s = key ∧ key.stateKey = key

/-- Every entry of a cache belongs to its key. -/
structure Cache.Belongs (c : Cache) : Prop where
  /-- Streams are filed under the key of their snapshot. -/
  streams : c.streams.All StreamKey.Owns
  /-- Orders are filed under the account and the number in their snapshot. -/
  orders : c.orders.All fun key s => orderText? s = some key

namespace Cache

theorem belongs_empty : empty.Belongs := ⟨Filed.all_nil, Filed.all_nil⟩

/-- A merge keeps every entry where it belongs. -/
theorem Belongs.file {c : Cache} (h : c.Belongs) (x : Filing) : (c.file x).Belongs := by
  rw [file_eq]
  constructor
  · refine h.streams.write ?_ ?_
    · intro key u write
      obtain ⟨-, kindName, rfl⟩ := x.eq_of_streamWrite? write
      rw [StreamKey.Owns, StreamKey.kindName_ofPayload]
      exact ⟨rfl, StreamKey.stateKey_ofPayload kindName u⟩
    · rintro key u write s ⟨own, plain⟩
      obtain ⟨ascending, kindName, rfl⟩ := x.eq_of_streamWrite? write
      rw [StreamKey.Owns, StreamKey.kindName_ofPayload] at *
      exact ⟨StreamKey.ofPayload_update ascending own, plain⟩
  · refine h.orders.write ?_ ?_
    · intro key u write
      exact (x.eq_of_orderWrite? write).2
    · intro key u write s _
      obtain ⟨ascending, named⟩ := x.eq_of_orderWrite? write
      exact Snapshot.orderText?_update ascending named

theorem belongs_filed (filings : List Filing) : (filed filings).Belongs :=
  List.foldlRecOn filings file belongs_empty fun _ h x _ => h.file x

end Cache

/-! ## What requests find -/

namespace StreamKey

/-- Keys of one kind that agree in the fields that their kind uses. A delay does not count. -/
structure Alike (k l : StreamKey) : Prop where
  /-- They are of one kind. -/
  kindName : k.kindName = l.kindName
  /-- News comes from the same source. -/
  news : k.kindName = Frame.Kind.news.name → k.source = l.source
  /-- Anything else is about the same instrument on the same market. -/
  other : k.kindName ≠ Frame.Kind.news.name → k.identifier = l.identifier ∧ k.market = l.market

/-- These are the keys of one snapshot. -/
theorem stateKey_eq_iff {k l : StreamKey} : k.stateKey = l.stateKey ↔ k.Alike l := by
  constructor
  · intro same
    have kindName : k.kindName = l.kindName := by
      have kinds := congrArg StreamKey.kindName same
      simp only [stateKey, normalized] at kinds
      split at kinds <;> split at kinds <;> exact kinds
    refine ⟨kindName, ?_, ?_⟩
    · intro news
      simpa [stateKey, normalized, ← kindName, news] using same
    · intro other
      simpa [stateKey, normalized, ← kindName, other] using same
  · rintro ⟨kindName, news, other⟩
    by_cases isNews : k.kindName = Frame.Kind.news.name
    · simp [stateKey, normalized, ← kindName, isNews, news isNews]
    · simp [stateKey, normalized, ← kindName, isNews, other isNews]

theorem kindName_stateKey (k : StreamKey) : k.stateKey.kindName = k.kindName := by
  rw [stateKey, normalized]
  split <;> rfl

end StreamKey

namespace Cache

/-- **Snapshots belong to their keys.** After any run of merges, of streams and of orders, with
payloads of any fields: the snapshot of a stream is filed under the key that its own fields make, and
this key has no field that its kind does not use; the snapshot of an order is filed under the account
and the number that its own fields hold. So what a request finds is a snapshot of the stream it asks
for, requests whose keys differ only in fields that their kind does not use find the same, and what
is found depends on nothing else of a key. -/
theorem snapshots_belong (filings : List Filing) :
    let c := filed filings
    (∀ key s, (key, s) ∈ c.streams →
      StreamKey.ofPayload key.kindName s = key ∧ key.stateKey = key) ∧
    (∀ key s, (key, s) ∈ c.orders → orderKey s = .ok key) ∧
    (∀ q s, c.get? q = some s → StreamKey.ofPayload q.kindName s = q.stateKey) ∧
    (∀ q q' : StreamKey, q.stateKey = q'.stateKey ↔ q.Alike q') ∧
    (∀ q q' : StreamKey, q.stateKey = q'.stateKey → c.get? q = c.get? q') := by
  intro c
  have belongs : c.Belongs := belongs_filed filings
  refine ⟨belongs.streams, ?_, ?_, fun q q' => StreamKey.stateKey_eq_iff, ?_⟩
  · intro key s filed
    exact orderKey_eq_ok.mpr (belongs.orders key s filed)
  · intro q s found
    obtain ⟨own, -⟩ := belongs.streams q.stateKey s (mem_of_lookup found)
    rwa [StreamKey.kindName_stateKey] at own
  · intro q q' same
    rw [get?, get?, same]

end Cache

end MarketStream
