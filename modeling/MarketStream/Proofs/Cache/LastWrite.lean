import Mathlib.Data.List.Induction
import MarketStream.Aggregator
import MarketStream.Proofs.Json.Members

/-!
# The cache holds the last write of every field

Every frame that the aggregator hears writes at most one payload into the cache: market data and
public trades under the key of their stream, orders under account and number. The cache is then
what these writes leave behind: under each key, every field has the value of the last write that
brought the field.

* `streamWrite?`, `orderWrite?` — what a frame writes; `digest_cache` — that it writes no more;
* `LastWrites` — a snapshot that holds the last write of every field;
* `lastWrites_foldl_write` — a run of writes leaves such snapshots;
* `cache_listen_lastWrites` — the cache after any run of frames.
-/

namespace MarketStream

/-- A frame as it reaches an aggregator. -/
structure Arrival where
  /-- When it arrives. -/
  now : Moment
  /-- On which channel. -/
  channel : Channel
  /-- The frame. -/
  frame : Frame

namespace Snapshot

theorem find?_update {u : Json.Members} (h : u.Ascending) (s : Snapshot) (name : String) :
    Json.Members.find? name (s.update u)
      = (Json.Members.find? name u).or (Json.Members.find? name s) :=
  Json.Members.find?_foldl_insert h s name

theorem ascending_update {s : Snapshot} (h : Json.Members.Ascending s) (u : Json.Members) :
    Json.Members.Ascending (s.update u) :=
  h.foldl_insert u

end Snapshot

/-- The snapshot holds the last write of every field: it is absent if nothing was written, and else
each field has the value of the last of the payloads, oldest first, that has the field. -/
structure LastWrites (snapshot : Option Snapshot) (payloads : List Json.Members) : Prop where
  /-- There is a snapshot once something was written. -/
  none_iff : snapshot = none ↔ payloads = []
  /-- Its fields are the last ones written. -/
  find?_eq : ∀ s ∈ snapshot, ∀ name,
    Json.Members.find? name s = payloads.reverse.findSome? (Json.Members.find? name)
  /-- Each field stands in it once. -/
  ascending : ∀ s ∈ snapshot, Json.Members.Ascending s

theorem lastWrites_nil : LastWrites none [] := ⟨by simp, by simp, by simp⟩

/-- One more payload. -/
theorem LastWrites.snoc {snapshot : Option Snapshot} {payloads : List Json.Members}
    (h : LastWrites snapshot payloads) {u : Json.Members} (ascending : u.Ascending) :
    LastWrites (some ((snapshot.map (·.update u)).getD u)) (payloads ++ [u]) := by
  cases snapshot with
  | none =>
    obtain rfl := h.none_iff.mp rfl
    refine ⟨by simp, ?_, by simpa using ascending⟩
    rintro s hs name
    obtain rfl := Option.mem_some.mp hs
    cases eq : Json.Members.find? name u <;> simp [eq]
  | some before =>
    refine ⟨by simp, ?_, ?_⟩
    · rintro s hs name
      obtain rfl := Option.mem_some.mp hs
      rw [Option.map_some, Option.getD_some, Snapshot.find?_update ascending,
        h.find?_eq before rfl name, List.reverse_append, List.findSome?_append]
      cases eq : Json.Members.find? name u <;> simp [eq]
    · rintro s hs
      obtain rfl := Option.mem_some.mp hs
      exact Snapshot.ascending_update (h.ascending before rfl) u

namespace Filed

variable {κ : Type} [DecidableEq κ]

theorem find?_nil (key : κ) : find? key ([] : Filed κ) = none := rfl

theorem find?_cons (key k : κ) (s : Snapshot) (rest : Filed κ) :
    find? key ((k, s) :: rest) = if key = k then some s else find? key rest :=
  lookup_cons_ite key k s rest

/-- Looking up after a payload was merged: only the key it was merged under has changed. -/
theorem find?_put (key key' : κ) (u : Json.Members) (filed : Filed κ) :
    find? key (put key' u filed)
      = if key = key' then some (((find? key filed).map (·.update u)).getD u)
        else find? key filed := by
  induction filed with
  | nil => rw [put, find?_cons, find?_nil, Option.map_none, Option.getD_none]
  | cons entry rest ih =>
    obtain ⟨k, s⟩ := entry
    rw [put]
    split
    · next same =>
      subst same
      rw [find?_cons, find?_cons]
      split <;> rfl
    · next ne =>
      rw [find?_cons, find?_cons, ih]
      by_cases h : key = k
      · rw [if_pos h, if_pos h, if_neg fun eq => ne (h.symm.trans eq)]
      · rw [if_neg h, if_neg h]

/-- The payloads written under a key. -/
def writesTo (key : κ) (writes : List (κ × Json.Members)) : List Json.Members :=
  (writes.filter fun w => w.1 = key).map Prod.snd

/-- **Last writes.** Merging payloads one after another leaves, under each key, the last write of
every field. -/
theorem lastWrites_foldl_put (writes : List (κ × Json.Members))
    (ascending : ∀ w ∈ writes, w.2.Ascending) (key : κ) :
    LastWrites (find? key (writes.foldl (fun filed w => put w.1 w.2 filed) []))
      (writesTo key writes) := by
  -- Every write counts against all those before it, so the induction adds the last one.
  induction writes using List.reverseRecOn with
  | nil => exact lastWrites_nil
  | append_singleton before w ih =>
    have ih := ih fun w' h => ascending w' (by simp [h])
    rw [List.foldl_append, List.foldl_cons, List.foldl_nil, find?_put, writesTo,
      List.filter_append, List.map_append]
    by_cases h : key = w.1
    · rw [if_pos h, List.filter_cons_of_pos (by simp [h])]
      exact ih.snoc (ascending w (by simp))
    · rw [if_neg h, List.filter_cons_of_neg (by simpa using Ne.symm h)]
      simpa [writesTo] using ih

end Filed

/-! ## What frames write -/

/-- Frames of this kind are filed under the key of their stream. -/
def isFiled (channel : Channel) : Frame.Kind → Bool
  | .price | .depth | .indicator | .news | .tradingStatus => true
  | .trade => channel = .public
  | .order | .heartbeat | .other _ => false

/-- What a frame writes into the snapshot of a stream. -/
def streamWrite? (x : Arrival) : Option (StreamKey × Json.Members) :=
  if isFiled x.channel x.frame.kind then
    x.frame.members?.map fun u => (.ofPayload x.frame.kindName u, u)
  else none

/-- The text of a field that is there and not null: a text bare, any other value as its JSON. -/
def held? (u : Json.Members) (name : String) : Option String :=
  match u.find? name with
  | none | some .null => none
  | some (.string s) => some s
  | some v => some v.text

/-- The account and the number of an order with a colon between, if both are there. -/
def orderText? (u : Json.Members) : Option String :=
  match held? u "accno", held? u "order_id" with
  | some account, some number => some (account ++ ":" ++ number)
  | _, _ => none

/-- What a frame writes into the snapshot of an order. -/
def orderWrite? (x : Arrival) : Option (String × Json.Members) :=
  if x.frame.kind = .order then
    x.frame.members?.bind fun u => (orderText? u).map fun key => (key, u)
  else none

/-- The table with a write, if there is one. -/
def Filed.write {κ : Type} [DecidableEq κ] (filed : Filed κ) :
    Option (κ × Json.Members) → Filed κ
  | none => filed
  | some (key, u) => put key u filed

theorem toOption_fieldText (u : Json.Members) (name : String) :
    (Cache.fieldText u name).toOption = held? u name := by
  rw [Cache.fieldText, held?]
  cases Json.Members.find? name u with
  | none => rfl
  | some v => cases v <;> rfl

theorem toOption_orderKey (u : Json.Members) :
    (Cache.orderKey u).toOption = orderText? u := by
  rw [Cache.orderKey, orderText?, ← toOption_fieldText, ← toOption_fieldText]
  cases Cache.fieldText u "accno" <;> cases Cache.fieldText u "order_id" <;> rfl

namespace Aggregator

/-- The cache after a merge that may fail. -/
def afterMerge (cache : Cache) (result : Except Fault (Cache × Frame)) : Cache :=
  match result with
  | .ok (cache, _) => cache
  | .error _ => cache

theorem afterMerge_merge (c : Cache) (f : Frame) :
    afterMerge c (c.merge f)
      = { c with
          streams := c.streams.write (f.members?.map fun u => (.ofPayload f.kindName u, u)) } := by
  rw [Cache.merge]
  cases f.members? <;> rfl

theorem afterMerge_mergeOrder (c : Cache) (f : Frame) :
    afterMerge c (c.mergeOrder f)
      = { c with
          orders := c.orders.write
            (f.members?.bind fun u => (orderText? u).map fun key => (key, u)) } := by
  rw [Cache.mergeOrder]
  cases f.members? with
  | none => rfl
  | some u =>
    simp only [Option.bind_some, ← toOption_orderKey]
    cases Cache.orderKey u <;> rfl

/-- Which merge a frame causes, if any. -/
theorem digest_fst (c : Cache) (channel : Channel) (f : Frame) :
    (digest c channel f).1 =
      if f.kind = .order then afterMerge c (c.mergeOrder f)
      else if isFiled channel f.kind then afterMerge c (c.merge f) else c := by
  unfold digest
  cases kind : f.kind with
  | order => cases c.mergeOrder f <;> rfl
  | trade =>
    cases channel with
    | «private» => rfl
    | «public» => cases c.merge f <;> rfl
  | heartbeat | other _ => rfl
  | price | depth | indicator | news | tradingStatus => cases c.merge f <;> rfl

/-- A frame writes into the cache what it says, and nothing else. -/
theorem digest_cache (c : Cache) (x : Arrival) :
    (digest c x.channel x.frame).1
      = ⟨c.streams.write (streamWrite? x), c.orders.write (orderWrite? x)⟩ := by
  rw [digest_fst, streamWrite?, orderWrite?]
  by_cases own : x.frame.kind = .order
  · have notFiled : isFiled x.channel x.frame.kind = false := by rw [own]; rfl
    rw [if_pos own, if_pos own, notFiled, afterMerge_mergeOrder]
    rfl
  · rw [if_neg own, if_neg own]
    by_cases filed : isFiled x.channel x.frame.kind = true
    · rw [if_pos filed, if_pos filed, afterMerge_merge]
      rfl
    · rw [if_neg filed, if_neg filed]
      rfl

/-- A frame arrives. -/
def hear (a : Aggregator) (x : Arrival) : Aggregator := (a.onFrame x.now x.channel x.frame).1

/-- Frames arrive one after another. -/
def listen (a : Aggregator) (xs : List Arrival) : Aggregator := xs.foldl hear a

theorem hear_cache (a : Aggregator) (x : Arrival) :
    (a.hear x).cache
      = ⟨a.cache.streams.write (streamWrite? x), a.cache.orders.write (orderWrite? x)⟩ :=
  digest_cache a.cache x

/-- After any run of frames the cache is what their writes leave behind. -/
theorem listen_cache (a : Aggregator) (xs : List Arrival) :
    (a.listen xs).cache =
      ⟨(xs.filterMap streamWrite?).foldl (fun filed w => Filed.put w.1 w.2 filed) a.cache.streams,
        (xs.filterMap orderWrite?).foldl (fun filed w => Filed.put w.1 w.2 filed)
          a.cache.orders⟩ := by
  induction xs generalizing a with
  | nil => rfl
  | cons x rest ih =>
    have step : a.listen (x :: rest) = (a.hear x).listen rest := rfl
    rw [step, ih, hear_cache]
    cases hs : streamWrite? x <;> cases ho : orderWrite? x <;>
      simp [hs, ho, Filed.write]

theorem ascending_of_members? {f : Frame} {u : Json.Members} (h : f.members? = some u) :
    u.Ascending := by
  obtain ⟨input, -, h⟩ := Option.bind_eq_some_iff.mp h
  exact Json.ascending_of_readMembers? h

theorem ascending_of_streamWrite? {x : Arrival} {w : StreamKey × Json.Members}
    (h : streamWrite? x = some w) : w.2.Ascending := by
  rw [streamWrite?, Option.ite_none_right_eq_some] at h
  obtain ⟨u, hu, rfl⟩ := Option.map_eq_some_iff.mp h.2
  exact ascending_of_members? hu

theorem ascending_of_orderWrite? {x : Arrival} {w : String × Json.Members}
    (h : orderWrite? x = some w) : w.2.Ascending := by
  rw [orderWrite?, Option.ite_none_right_eq_some] at h
  obtain ⟨u, hu, h⟩ := Option.bind_eq_some_iff.mp h.2
  obtain ⟨key, -, rfl⟩ := Option.map_eq_some_iff.mp h
  exact ascending_of_members? hu

/-- **The cache is the sparse fold of its input.** After any run of frames, on either channel and
with payloads of any text, the snapshot under each key, of a stream or of an order, has the last
write of every field among the frames that write under this key, and is absent if there are none.
A frame that writes nothing leaves the cache as it is. -/
theorem cache_listen_lastWrites (settings : Settings) (ids : Nat → String) (xs : List Arrival) :
    (∀ key, LastWrites (Filed.find? key ((fresh settings ids).listen xs).cache.streams)
      (Filed.writesTo key (xs.filterMap streamWrite?))) ∧
    (∀ key, LastWrites (Filed.find? key ((fresh settings ids).listen xs).cache.orders)
      (Filed.writesTo key (xs.filterMap orderWrite?))) ∧
    ∀ (a : Aggregator) (x : Arrival), streamWrite? x = none → orderWrite? x = none →
      (a.hear x).cache = a.cache := by
  rw [listen_cache]
  refine ⟨fun key => ?_, fun key => ?_, fun a x stream order => ?_⟩
  · refine Filed.lastWrites_foldl_put _ (fun w hw => ?_) key
    obtain ⟨x, -, hx⟩ := List.mem_filterMap.mp hw
    exact ascending_of_streamWrite? hx
  · refine Filed.lastWrites_foldl_put _ (fun w hw => ?_) key
    obtain ⟨x, -, hx⟩ := List.mem_filterMap.mp hw
    exact ascending_of_orderWrite? hx
  · rw [hear_cache, stream, order]
    rfl

end Aggregator

end MarketStream
