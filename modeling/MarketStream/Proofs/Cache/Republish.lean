import MarketStream.Proofs.Cache.LastWrite
import MarketStream.Proofs.Json.Value

/-!
# What an aggregator passes on

An aggregator passes on every frame whose kind it knows, except heartbeats, under the same kind and
sequence number. A frame whose payload is shown merged carries the snapshot that is cached under its
key from then on: the payload as it came if it is the first of its key, and otherwise the text of
the snapshot. Whoever decodes that text has the snapshot, unless it is one that cannot be read back,
as long as its measured numbers are.

* `Snapshot.Tidy`, `tidy_listen` — cached snapshots are as reading gives them;
* `members?_ofValue` — what the text of a snapshot is decoded as;
* `Shows` — a frame that shows what is cached; `shows_passOn`;
* `passes_on` — what is passed on of any frame, whatever came before it.
-/

namespace MarketStream

/-! ## Cached snapshots are tidy -/

/-- A snapshot as reading and merging give it. -/
structure Snapshot.Tidy (s : Snapshot) : Prop where
  /-- Its fields are in order. -/
  ascending : Json.Members.Ascending s
  /-- Their values are as reading gives them. -/
  tidy : ∀ m ∈ s, m.2.Tidy

theorem Frame.tidy_of_members? {f : Frame} {u : Json.Members} (h : f.members? = some u) :
    Snapshot.Tidy u := by
  obtain ⟨input, -, read⟩ := Option.bind_eq_some_iff.mp h
  exact ⟨Json.ascending_of_readMembers? read, Json.tidy_of_readMembers? read⟩

theorem Snapshot.Tidy.update {s : Snapshot} {u : Json.Members} (h : s.Tidy)
    (hu : Snapshot.Tidy u) : (s.update u).Tidy := by
  refine ⟨Snapshot.ascending_update h.ascending u, ?_⟩
  intro m hm
  rcases Json.Members.mem_foldl_insert hm with hm | hm
  · exact hu.tidy m hm
  · exact h.tidy m hm

namespace Filed

variable {κ : Type} [DecidableEq κ]

/-- All snapshots are tidy. -/
def AllTidy (filed : Filed κ) : Prop := ∀ key s, find? key filed = some s → s.Tidy

theorem allTidy_nil : AllTidy ([] : Filed κ) := by
  intro key s h
  cases h

/-- Merging a payload keeps snapshots tidy. -/
theorem AllTidy.put {filed : Filed κ} (h : filed.AllTidy) (key : κ) {u : Json.Members}
    (hu : Snapshot.Tidy u) : AllTidy (put key u filed) := by
  intro key' s hs
  rw [find?_put] at hs
  split at hs
  · obtain rfl := Option.some.inj hs
    cases before : find? key' filed with
    | none => exact hu
    | some s => exact (h key' s before).update hu
  · exact h key' s hs

theorem AllTidy.write {filed : Filed κ} (h : filed.AllTidy) {w : Option (κ × Json.Members)}
    (hw : ∀ key u, w = some (key, u) → Snapshot.Tidy u) : AllTidy (filed.write w) := by
  cases w with
  | none => exact h
  | some w => exact h.put w.1 (hw w.1 w.2 rfl)

end Filed

/-- All snapshots of a cache are tidy. -/
structure Cache.Tidy (c : Cache) : Prop where
  /-- Those of streams. -/
  streams : c.streams.AllTidy
  /-- Those of orders. -/
  orders : c.orders.AllTidy

namespace Aggregator

/-- What a frame writes is the payload as it was read. -/
theorem members?_of_streamWrite? {x : Arrival} {key : StreamKey} {u : Json.Members}
    (h : streamWrite? x = some (key, u)) : x.frame.members? = some u := by
  rw [streamWrite?, Option.ite_none_right_eq_some] at h
  obtain ⟨v, hv, eq⟩ := Option.map_eq_some_iff.mp h.2
  rw [hv, (Prod.mk.inj eq).2]

theorem members?_of_orderWrite? {x : Arrival} {key : String} {u : Json.Members}
    (h : orderWrite? x = some (key, u)) : x.frame.members? = some u := by
  rw [orderWrite?, Option.ite_none_right_eq_some] at h
  obtain ⟨v, hv, h⟩ := Option.bind_eq_some_iff.mp h.2
  obtain ⟨key, -, eq⟩ := Option.map_eq_some_iff.mp h
  rw [hv, (Prod.mk.inj eq).2]

theorem tidy_hear {a : Aggregator} (h : a.cache.Tidy) (x : Arrival) : (a.hear x).cache.Tidy := by
  rw [hear_cache]
  refine ⟨h.streams.write ?_, h.orders.write ?_⟩
  · intro key u hw
    exact Frame.tidy_of_members? (members?_of_streamWrite? hw)
  · intro key u hw
    exact Frame.tidy_of_members? (members?_of_orderWrite? hw)

/-- Whatever came before, the cache holds tidy snapshots. -/
theorem tidy_listen {a : Aggregator} (h : a.cache.Tidy) (xs : List Arrival) :
    (a.listen xs).cache.Tidy := by
  induction xs generalizing a with
  | nil => exact h
  | cons x rest ih => exact ih (tidy_hear h x)

theorem tidy_fresh (settings : Settings) (ids : Nat → String) : (fresh settings ids).cache.Tidy :=
  ⟨Filed.allTidy_nil, Filed.allTidy_nil⟩

end Aggregator

/-! ## Merged payloads -/

/-- If the measured numbers in it are read back, the text of a snapshot is decoded as the snapshot if
its values are legible, and not at all otherwise. -/
theorem Frame.members?_ofValue {s : Snapshot} (tidy : s.Tidy)
    (floats : ∀ x ∈ Json.membersFloats s, Json.ReadsBack x) (kindName : String) :
    (Frame.ofValue kindName (.object s)).members?
      = if Json.membersLegible Json.roomyField s then some s else none := by
  have value : Json.IsValue (Json.Value.object s).write := Json.isValue_object fun m hm =>
    Json.isValue_write (tidy.tidy m hm)
  have payload : (Frame.ofValue kindName (.object s)).payload?
      = some ((Json.Value.object s).write.map some) := by
    rw [Frame.payload?, Frame.ofValue, Json.Value.text, textBytes, String.toList_ofList]
    exact Json.document?_utf8 value
  rw [Frame.members?, payload, Option.bind_some]
  exact Json.readMembers?_write tidy.ascending tidy.tidy floats

/-- A frame shows what is cached under its key, where `before` was cached and `now` is: the first
payload of a key as it came, any other merged. -/
structure Shows (f out : Frame) (before now : Option Snapshot) : Prop where
  /-- The first frame of a key is passed on as it came. -/
  first : before = none → out = f
  /-- Any other carries the text of the snapshot, and the payload is decoded as the snapshot unless
  that cannot be read back. Of a merged one this needs that the measured numbers are read back. -/
  cached : ∃ s, now = some s ∧ (before ≠ none → out.data = (Json.Value.object s).text) ∧
    (before = none ∨ (∀ x ∈ Json.membersFloats s, Json.ReadsBack x) →
      out.members? =
        if before.isNone || Json.membersLegible Json.roomyField s then some s else none)

theorem shows_passOn {f : Frame} {before : Option Snapshot} {u : Json.Members}
    (read : f.members? = some u) (tidy : ∀ s ∈ before, s.Tidy) :
    Shows f (Cache.passOn f before u) before (some ((before.map (·.update u)).getD u)) := by
  cases before with
  | none =>
    exact ⟨fun _ => rfl, u, rfl, fun some_before => absurd rfl some_before, fun _ => read⟩
  | some s =>
    refine ⟨fun none_before => (by cases none_before), s.update u, rfl, fun _ => rfl, ?_⟩
    rintro (none_before | floats)
    · cases none_before
    · have merged := (tidy s rfl).update (Frame.tidy_of_members? read)
      exact Frame.members?_ofValue merged floats f.kindName

namespace Cache

theorem kindName_passOn (f : Frame) (before : Option Snapshot) (u : Json.Members) :
    (passOn f before u).kindName = f.kindName := by
  cases before <;> rfl

theorem seq_passOn (f : Frame) (before : Option Snapshot) (u : Json.Members) :
    (passOn f before u).seq = f.seq := by
  cases before <;> rfl

end Cache

namespace Aggregator

/-! ## What is passed on -/

/-- What is passed on of a frame that is shown as a merge leaves it: the frame as it came if the
merge fails. -/
def afterward (f : Frame) (result : Except Fault (Cache × Frame)) : Frame :=
  match result with
  | .ok (_, out) => out
  | .error _ => f

/-- The frame that a write into a table is shown as, if there is a write. -/
def shown {κ : Type} [DecidableEq κ] (f : Frame) (filed : Filed κ) :
    Option (κ × Json.Members) → Frame
  | none => f
  | some (key, u) => Cache.passOn f (Filed.find? key filed) u

theorem afterward_merge (c : Cache) (f : Frame) :
    afterward f (c.merge f)
      = shown f c.streams (f.members?.map fun u => (.ofPayload f.kindName u, u)) := by
  rw [Cache.merge]
  cases f.members? <;> rfl

theorem afterward_mergeOrder (c : Cache) (f : Frame) :
    afterward f (c.mergeOrder f)
      = shown f c.orders (f.members?.bind fun u => (orderText? u).map fun key => (key, u)) := by
  rw [Cache.mergeOrder]
  cases f.members? with
  | none => rfl
  | some u =>
    simp only [Option.bind_some, ← toOption_orderKey]
    cases Cache.orderKey u <;> rfl

/-- Nothing is passed on of frames of this kind. -/
def isSilent : Frame.Kind → Bool
  | .heartbeat | .other _ => true
  | _ => false

/-- Frames of this kind are passed on as they are merged. -/
def isMerged : Frame.Kind → Bool
  | .price | .depth | .indicator | .order => true
  | _ => false

/-- What is passed on of a frame, by its kind. -/
theorem digest_snd (c : Cache) (channel : Channel) (f : Frame) :
    (digest c channel f).2 =
      if isSilent f.kind then none
      else if f.kind = .order then some (afterward f (c.mergeOrder f))
      else if isMerged f.kind then some (afterward f (c.merge f))
      else some f := by
  unfold digest
  cases f.kind with
  | order => cases c.mergeOrder f <;> rfl
  | trade => cases channel <;> rfl
  | heartbeat | other _ | news | tradingStatus => rfl
  | price | depth | indicator => cases c.merge f <;> rfl

/-- What is passed on of a frame that arrives. -/
def passed? (a : Aggregator) (x : Arrival) : Option Frame :=
  (a.onFrame x.now x.channel x.frame).2

theorem passed?_eq (a : Aggregator) (x : Arrival) :
    a.passed? x = (digest a.cache x.channel x.frame).2 := rfl

/-- A frame whose kind is merged is passed on as its write is shown. -/
theorem passed?_of_isMerged (a : Aggregator) {x : Arrival}
    (merged : isMerged x.frame.kind = true) :
    a.passed? x = some (if x.frame.kind = .order then shown x.frame a.cache.orders (orderWrite? x)
      else shown x.frame a.cache.streams (streamWrite? x)) := by
  have heard : isSilent x.frame.kind = false := by
    cases kind : x.frame.kind <;> rw [kind] at merged <;> first | rfl | cases merged
  rw [passed?_eq, digest_snd, heard, orderWrite?, streamWrite?, if_neg Bool.false_ne_true]
  by_cases own : x.frame.kind = .order
  · rw [if_pos own, if_pos own, if_pos own, afterward_mergeOrder]
  · have filed : isFiled x.channel x.frame.kind = true := by
      cases kind : x.frame.kind <;> rw [kind] at merged own <;>
        first | exact absurd rfl own | rfl | cases merged
    rw [if_neg own, if_neg own, if_pos merged, if_pos filed, afterward_merge]

/-- A frame that is known and not merged is passed on as it came. -/
theorem passed?_of_not_isMerged (a : Aggregator) {x : Arrival}
    (heard : isSilent x.frame.kind = false) (notMerged : isMerged x.frame.kind = false) :
    a.passed? x = some x.frame := by
  have notOwn : x.frame.kind ≠ .order := by
    intro own
    rw [own] at notMerged
    cases notMerged
  rw [passed?_eq, digest_snd, heard, notMerged, if_neg Bool.false_ne_true, if_neg notOwn,
    if_neg Bool.false_ne_true]

section

variable {κ : Type} [DecidableEq κ] (f : Frame) (filed : Filed κ)

theorem kindName_shown (w : Option (κ × Json.Members)) :
    (shown f filed w).kindName = f.kindName := by
  cases w with
  | none => rfl
  | some w => exact Cache.kindName_passOn ..

theorem seq_shown (w : Option (κ × Json.Members)) : (shown f filed w).seq = f.seq := by
  cases w with
  | none => rfl
  | some w => exact Cache.seq_passOn ..

/-- What a write is shown as shows what is under its key from then on. -/
theorem shows_shown {f : Frame} {filed : Filed κ} (tidy : filed.AllTidy) {key : κ}
    {u : Json.Members} (read : f.members? = some u) :
    Shows f (shown f filed (some (key, u))) (Filed.find? key filed)
      (Filed.find? key (filed.write (some (key, u)))) := by
  have now : Filed.find? key (filed.write (some (key, u)))
      = some (((Filed.find? key filed).map (·.update u)).getD u) := by
    rw [Filed.write, Filed.find?_put, if_pos rfl]
  rw [now]
  exact shows_passOn read fun s hs => tidy key s hs

end

/-- A frame passed on of an arrival, `before` and `now` being the caches before and after it. -/
structure PassedOn (x : Arrival) (before now : Cache) (out : Frame) : Prop where
  /-- It is of the same kind. -/
  kindName : out.kindName = x.frame.kindName
  /-- It has the same sequence number. -/
  seq : out.seq = x.frame.seq
  /-- It is the frame as it came, unless the kind is merged. -/
  verbatim : isMerged x.frame.kind = false → out = x.frame
  /-- It is the frame as it came if that writes nothing. -/
  unwritten : streamWrite? x = none → orderWrite? x = none → out = x.frame
  /-- It shows the snapshot of the stream that the frame is merged into. -/
  stream : isMerged x.frame.kind = true → ∀ key u, streamWrite? x = some (key, u) →
    Shows x.frame out (Filed.find? key before.streams) (Filed.find? key now.streams)
  /-- It shows the snapshot of the order that the frame is merged into. -/
  order : ∀ key u, orderWrite? x = some (key, u) →
    Shows x.frame out (Filed.find? key before.orders) (Filed.find? key now.orders)

section

variable {a : Aggregator} {x : Arrival}

theorem isMerged_of_order (own : x.frame.kind = .order) : isMerged x.frame.kind = true := by
  rw [own]
  rfl

/-- An order writes into the snapshot of an order only. -/
theorem streamWrite?_of_order (own : x.frame.kind = .order) : streamWrite? x = none := by
  rw [streamWrite?, own]
  exact if_neg Bool.false_ne_true

/-- Any other frame does not write into the snapshot of an order. -/
theorem orderWrite?_of_ne_order (other : x.frame.kind ≠ .order) : orderWrite? x = none := by
  rw [orderWrite?, if_neg other]

theorem passedOn_order (tidy : a.cache.Tidy) (own : x.frame.kind = .order) :
    PassedOn x a.cache (a.hear x).cache (shown x.frame a.cache.orders (orderWrite? x)) where
  kindName := kindName_shown ..
  seq := seq_shown ..
  verbatim notMerged := by
    rw [isMerged_of_order own] at notMerged
    cases notMerged
  unwritten _ nothing := by
    rw [nothing]
    rfl
  stream _ key u write := by
    rw [streamWrite?_of_order own] at write
    cases write
  order key u write := by
    have read := members?_of_orderWrite? write
    rw [hear_cache, write]
    exact shows_shown tidy.orders read

theorem passedOn_stream (tidy : a.cache.Tidy) (merged : isMerged x.frame.kind = true)
    (other : x.frame.kind ≠ .order) :
    PassedOn x a.cache (a.hear x).cache (shown x.frame a.cache.streams (streamWrite? x)) where
  kindName := kindName_shown ..
  seq := seq_shown ..
  verbatim notMerged := by
    rw [merged] at notMerged
    cases notMerged
  unwritten nothing _ := by
    rw [nothing]
    rfl
  stream _ key u write := by
    have read := members?_of_streamWrite? write
    rw [hear_cache, write]
    exact shows_shown tidy.streams read
  order key u write := by
    rw [orderWrite?_of_ne_order other] at write
    cases write

theorem passedOn_verbatim (notMerged : isMerged x.frame.kind = false) :
    PassedOn x a.cache (a.hear x).cache x.frame where
  kindName := rfl
  seq := rfl
  verbatim _ := rfl
  unwritten _ _ := rfl
  stream merged := by
    rw [notMerged] at merged
    cases merged
  order key u write := by
    have other : x.frame.kind ≠ .order := by
      intro own
      rw [isMerged_of_order own] at notMerged
      cases notMerged
    rw [orderWrite?_of_ne_order other] at write
    cases write

end

/-- **What is passed on.** Take any frame after any run of frames. Nothing is passed on of a
heartbeat or of a kind unknown here. Of any other frame exactly one is passed on, of the same kind
and sequence number (`PassedOn`): the frame as it came, if it is news, a trading status or a trade,
or if it writes nothing; and a price, a depth, an indicator or an order that writes a payload is
passed on as it shows what is cached under its key from then on (`Shows`). -/
theorem passes_on (settings : Settings) (ids : Nat → String) (xs : List Arrival) (x : Arrival) :
    let a := (fresh settings ids).listen xs
    (isSilent x.frame.kind = true → a.passed? x = none) ∧
      (isSilent x.frame.kind = false →
        ∃ out, a.passed? x = some out ∧ PassedOn x a.cache (a.hear x).cache out) := by
  intro a
  have tidy : a.cache.Tidy := tidy_listen (tidy_fresh settings ids) xs
  refine ⟨?_, ?_⟩
  · intro silent
    rw [passed?_eq, digest_snd, if_pos silent]
  · intro heard
    by_cases merged : isMerged x.frame.kind = true
    · rw [a.passed?_of_isMerged merged]
      by_cases own : x.frame.kind = .order
      · rw [if_pos own]
        exact ⟨_, rfl, passedOn_order tidy own⟩
      · rw [if_neg own]
        exact ⟨_, rfl, passedOn_stream tidy merged own⟩
    · rw [Bool.not_eq_true] at merged
      exact ⟨_, a.passed?_of_not_isMerged heard merged, passedOn_verbatim merged⟩

/-- A price on the public channel with a payload, as a sample. -/
def price (payload : String) : Arrival := ⟨⟨0, ""⟩, .public, ⟨"price", payload, 0⟩⟩

/-- Two payloads of one stream, each with a measured number: what is passed on of the second one is
decoded as the snapshot with both numbers. -/
theorem passes_on_sample :
    let earlier := [price "\x7b\"i\":\"A\",\"m\":1,\"bid\":10.25\x7d"]
    let a := (fresh .standard fun _ => "").listen earlier
    let x := price "\x7b\"i\":\"A\",\"m\":1,\"ask\":10.5\x7d"
    let key : StreamKey := ⟨"price", "A", "1", none, false⟩
    ∃ s out, Filed.find? key (a.hear x).cache.streams = some s ∧
      (Json.membersFloats s).length = 2 ∧ a.passed? x = some out ∧ out.members? = some s := by
  intro earlier a x key
  have writes : (streamWrite? x).map Prod.fst = some key := by decide +kernel
  have readable : ∀ s ∈ Filed.find? key (a.hear x).cache.streams,
      (Json.membersFloats s).length = 2 ∧ (∀ y ∈ Json.membersFloats s, Json.ReadsBack y) ∧
        Json.membersLegible Json.roomyField s = true := by decide +kernel
  obtain ⟨⟨_, u⟩, write, rfl⟩ := Option.map_eq_some_iff.mp writes
  obtain ⟨-, heard⟩ := passes_on .standard (fun _ => "") earlier x
  -- What follows does not look at the earlier payload again.
  have begun : a = (fresh .standard fun _ => "").listen earlier := rfl
  rw [← begun] at heard
  clear_value a
  obtain ⟨out, passed, passedOn⟩ := heard (by decide)
  obtain ⟨s, cached, -, decoded⟩ := (passedOn.stream (by decide) _ u write).cached
  obtain ⟨two, floats, legible⟩ := readable s cached
  refine ⟨s, out, cached, two, passed, ?_⟩
  rw [decoded (.inr floats), legible, Bool.or_true, if_pos rfl]

/-- A payload with an object inside that has the reserved key, though not as its first one. -/
def reservedInside : String :=
  "\x7b\"i\":\"A\",\"m\":1,\"x\":\x7b\"a\":1,\"$serde_json::private::RawValue\":\"2\"\x7d\x7d"

/-- Merging puts the members of that object in order, so that the reserved key comes first. What is
passed on of the next payload cannot be decoded. -/
theorem passes_on_unreadable :
    let a := (fresh .standard fun _ => "").listen [price reservedInside]
    let x := price "\x7b\"i\":\"A\",\"m\":1,\"y\":3\x7d"
    let key : StreamKey := ⟨"price", "A", "1", none, false⟩
    ∃ u s out, streamWrite? x = some (key, u) ∧
      Filed.find? key (a.hear x).cache.streams = some s ∧
      a.passed? x = some out ∧
      out.members? = none := by
  intro a x key
  have writes : (streamWrite? x).map Prod.fst = some key := by decide +kernel
  have cached : (Filed.find? key (a.hear x).cache.streams).isSome = true := by decide +kernel
  have passed : ((a.passed? x).map fun out => out.members?.isNone) = some true := by decide +kernel
  obtain ⟨⟨_, u⟩, write, rfl⟩ := Option.map_eq_some_iff.mp writes
  obtain ⟨s, cached⟩ := Option.isSome_iff_exists.mp cached
  obtain ⟨out, passed, unreadable⟩ := Option.map_eq_some_iff.mp passed
  exact ⟨u, s, out, write, cached, passed, Option.isNone_iff_eq_none.mp unreadable⟩

end Aggregator

end MarketStream
