import MarketStream.Proofs.Bus.Envelope
import MarketStream.Proofs.Bus.Reassembly
import MarketStream.Proofs.Bus.Traffic

/-!
# Where a request stands

At every instant a request that was made either waits, with exactly its own segments that arrived
on file, or it was answered, or its time was up; and each of these says what arrived and when.

* `Answerer` — a service that always succeeds;
* `Standing` — where a request stands;
* `Standing.frame` — where it stands if nothing happens to it;
* `Standing.took_last`, `Standing.took_next`, `Standing.took_late` — if one of its segments arrives.
-/

namespace MarketStream.Bus

/-- A service that always succeeds. -/
structure Answerer where
  /-- The answer to a payload sent to a topic. -/
  answer : (topic : String) → Bytes → Bytes
  /-- How many bytes a segment holds. -/
  size : Nat

namespace Answerer

/-- The service on the bus. -/
def responder (a : Answerer) : Responder :=
  ⟨a.size, fun topic payload => .ok (a.answer topic payload)⟩

/-- The reply that a request should get. -/
def reply (a : Answerer) (c : Call) : Reply := ⟨c.id, 1, 1, a.answer c.topic c.payload, ""⟩

/-- The segments in which it travels. -/
def segments (a : Answerer) (c : Call) : List Reply :=
  split c.id (a.answer c.topic c.payload) a.size

/-- The answer to a request has the length of some memory, so it fits a signed 64-bit number. -/
def Fits (a : Answerer) (c : Call) : Prop :=
  (a.answer c.topic c.payload).length < 0x8000000000000000

theorem id_of_mem_segments {a : Answerer} {c : Call} {s : Reply} (h : s ∈ a.segments c) :
    s.id = c.id :=
  id_of_mem_split h

end Answerer

theorem Reply.encode_injective {s u : Reply} (h : s.encode = u.encode) : s = u := by
  have eq := Reply.decode?_encode s
  rw [h, Reply.decode?_encode] at eq
  exact (Option.some.inj eq).symm

theorem Reply.encode_ne_request (s : Reply) (q : Request) : s.encode ≠ q.encode := by
  intro h
  have eq := Reply.decode?_encode s
  rw [h, Reply.decode?_request] at eq
  cases eq

/-! ## Where a request stands -/

/-- A segment reached the inbox. -/
def Traffic.Came (t : Traffic) (s : Reply) : Prop := s.encode ∈ t.arrivals.map Prod.snd

instance (t : Traffic) : DecidablePred t.Came := fun s =>
  inferInstanceAs (Decidable (s.encode ∈ t.arrivals.map Prod.snd))

/-- A segment reached the inbox at an instant. -/
def Traffic.CameAt (t : Traffic) (instant : Nat) (s : Reply) : Prop :=
  (instant, s.encode) ∈ t.arrivals

theorem Traffic.came_iff {t : Traffic} {s : Reply} : t.Came s ↔ ∃ instant, t.CameAt instant s := by
  simp [Traffic.Came, Traffic.CameAt]

/-- Where a request stands. -/
inductive Standing (a : Answerer) (lag : Nat) (t : Traffic) (c : Call) : Prop where
  /-- It waits, with the segments that arrived on file. -/
  | waits
    (pending : t.requester.find? c.id = some ⟨holding (a.segments c) t.Came, c.deadline⟩)
    (missing : ¬ ∀ s ∈ a.segments c, t.Came s)
    (punctual : t.now ≤ c.deadline + lag)
    (unresolved : c.id ∉ t.resolved.map Prod.fst)
  /-- It was answered, after all segments had arrived. -/
  | answered
    (gone : t.requester.find? c.id = none)
    (resolved : (c.id, .ok (a.reply c)) ∈ t.resolved)
    (complete : ∀ s ∈ a.segments c, ∃ instant ≤ c.deadline + lag, t.CameAt instant s)
  /-- Its time was up, before some segment had arrived. -/
  | timedOut
    (gone : t.requester.find? c.id = none)
    (resolved : (c.id, .error (.timeout c.id t.requester.timeout)) ∈ t.resolved)
    (late : ∃ s ∈ a.segments c, ∀ instant < c.deadline, ¬ t.CameAt instant s)
    (overdue : c.deadline ≤ t.now)

section

variable {a : Answerer} {lag : Nat} {t t' : Traffic} {c : Call}

theorem holding_congr {segments : List Reply} {p q : Reply → Prop} [DecidablePred p]
    [DecidablePred q] (h : ∀ s ∈ segments, p s ↔ q s) :
    holding segments p = holding segments q := by
  rw [holding, holding, filed_congr h]

/-- A request stands where it stood if nothing happens to it. -/
theorem Standing.frame (h : Standing a lag t c)
    (find : t'.requester.find? c.id = t.requester.find? c.id)
    (timeout : t'.requester.timeout = t.requester.timeout) (now : t'.now = t.now)
    (came : ∀ s ∈ a.segments c, ∀ instant, t'.CameAt instant s ↔ t.CameAt instant s)
    {more : List Resolution} (resolved : t'.resolved = t.resolved ++ more)
    (others : c.id ∉ more.map Prod.fst) : Standing a lag t' c := by
  -- Only the segments of its own answer bear on a request.
  have came' : ∀ s ∈ a.segments c, t'.Came s ↔ t.Came s := fun s hs => by
    rw [Traffic.came_iff, Traffic.came_iff]
    exact exists_congr (came s hs)
  cases h with
  | waits pending missing punctual unresolved =>
    refine .waits ?_ ?_ (now ▸ punctual) ?_
    · rw [find, pending, holding_congr came']
    · exact fun all => missing fun s hs => (came' s hs).mp (all s hs)
    · rw [resolved, List.map_append, List.mem_append, not_or]
      exact ⟨unresolved, others⟩
  | answered gone ok complete =>
    refine .answered (find.trans gone) ?_ fun s hs => ?_
    · rw [resolved]
      exact List.mem_append_left more ok
    · obtain ⟨instant, le, at_⟩ := complete s hs
      exact ⟨instant, le, (came s hs instant).mpr at_⟩
  | timedOut gone timedOut late overdue =>
    obtain ⟨s, hs, never⟩ := late
    refine .timedOut (find.trans gone) ?_ ⟨s, hs, fun instant lt at_ => ?_⟩ (now ▸ overdue)
    · rw [resolved, timeout]
      exact List.mem_append_left more timedOut
    · exact never instant lt ((came s hs instant).mp at_)

/-! ## Segments that arrive -/

/-- A segment reached the inbox, with what the requester made of it. -/
def Traffic.took (t : Traffic) (s : Reply)
    (result : Requester × List Resolution) : Traffic :=
  { t with ledger := t.ledger.settle result, arrivals := t.arrivals ++ [(t.now, s.encode)] }

theorem deliver_segment (t : Traffic) (s : Reply) :
    t.deliver s.encode = t.took s (t.requester.receive s) := by
  rw [Traffic.deliver, Station.react, Requester.handle, Reply.decode?_encode]
  rfl

theorem deliver_request (t : Traffic) (q : Request) :
    t.deliver q.encode = { t with arrivals := t.arrivals ++ [(t.now, q.encode)] } := by
  rw [Traffic.deliver, Station.react, Requester.handle, Reply.decode?_request]
  rfl

theorem cameAt_took {s u : Reply} {x : Requester × List Resolution} {instant : Nat} :
    (t.took s x).CameAt instant u ↔ t.CameAt instant u ∨ (instant = t.now ∧ u = s) := by
  have same : u.encode = s.encode ↔ u = s := ⟨Reply.encode_injective, congrArg Reply.encode⟩
  simp [Traffic.CameAt, Traffic.took, same]

theorem came_took {s u : Reply} {x : Requester × List Resolution} :
    (t.took s x).Came u ↔ t.Came u ∨ u = s := by
  simp [Traffic.came_iff, cameAt_took, exists_or]

/-- What a segment of its own does to a request that waits. -/
theorem receive_segment (fits : a.Fits c) {s : Reply} (hs : s ∈ a.segments c)
    (pending : t.requester.find? c.id = some ⟨holding (a.segments c) t.Came, c.deadline⟩) :
    t.requester.receive s =
      if ∀ u ∈ a.segments c, t.Came u ∨ u = s then
        (t.requester.remove c.id, [(c.id, .ok (a.reply c))])
      else (t.requester.update c.id (holding (a.segments c) fun u => t.Came u ∨ u = s), []) := by
  have id_eq := Answerer.id_of_mem_segments hs
  rw [← id_eq] at pending
  split
  · next last =>
    rw [Requester.receive_of_complete pending (feed_segment_of_last fits hs last).2, id_eq]
    rfl
  · next missing =>
    rw [Requester.receive_of_incomplete pending (feed_segment_of_missing fits hs missing), id_eq]
    rfl

/-- The last segment that was missing answers a request. -/
theorem Standing.took_last {s : Reply} (past : ∀ e ∈ t.arrivals, e.1 ≤ t.now)
    (punctual : t.now ≤ c.deadline + lag) (last : ∀ u ∈ a.segments c, t.Came u ∨ u = s) :
    Standing a lag (t.took s (t.requester.remove c.id, [(c.id, .ok (a.reply c))])) c := by
  refine .answered ?_ (List.mem_append_right _ (List.mem_singleton_self _)) fun u hu => ?_
  · exact (Requester.find?_remove t.requester c.id c.id).trans (if_pos rfl)
  · rcases last u hu with came | rfl
    · obtain ⟨instant, at_⟩ := Traffic.came_iff.mp came
      exact ⟨instant, Nat.le_trans (past _ at_) punctual, cameAt_took.mpr (.inl at_)⟩
    · exact ⟨t.now, punctual, cameAt_took.mpr (.inr ⟨rfl, rfl⟩)⟩

/-- Any other segment is filed. -/
theorem Standing.took_next {s : Reply} {r : Requester}
    (pending : r.find? c.id
      = some ⟨holding (a.segments c) fun u => t.Came u ∨ u = s, c.deadline⟩)
    (missing : ¬ ∀ u ∈ a.segments c, t.Came u ∨ u = s) (punctual : t.now ≤ c.deadline + lag)
    (unresolved : c.id ∉ t.resolved.map Prod.fst) : Standing a lag (t.took s (r, [])) c := by
  have resolved : (t.took s (r, [])).resolved = t.resolved := List.append_nil _
  refine .waits ?_ (fun all => missing fun u hu => came_took.mp (all u hu)) punctual
    (resolved.symm ▸ unresolved)
  rw [← holding_congr fun u _ => (came_took (t := t) (s := s) (x := (r, []))).symm]
  exact pending

/-- A segment that comes too late changes nothing. -/
theorem Standing.took_late {s : Reply} (h : Standing a lag t c)
    (gone : t.requester.find? c.id = none) : Standing a lag (t.took s (t.requester, [])) c := by
  have resolved : (t.took s (t.requester, [])).resolved = t.resolved := List.append_nil _
  cases h with
  | waits pending _ _ _ =>
    rw [gone] at pending
    cases pending
  | answered _ ok complete =>
    refine .answered gone (resolved.symm ▸ ok) fun u hu => ?_
    obtain ⟨instant, le, at_⟩ := complete u hu
    exact ⟨instant, le, cameAt_took.mpr (.inl at_)⟩
  | timedOut _ timedOut late overdue =>
    obtain ⟨u, hu, never⟩ := late
    refine .timedOut gone (resolved.symm ▸ timedOut) ⟨u, hu, fun instant lt at_ => ?_⟩ overdue
    -- The segment that comes now is not in time, since the deadline is past.
    rcases cameAt_took.mp at_ with at_ | ⟨rfl, -⟩
    · exact never instant lt at_
    · exact Nat.not_lt.mpr overdue lt

end

end MarketStream.Bus
