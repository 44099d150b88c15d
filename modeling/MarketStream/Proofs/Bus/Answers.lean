import Mathlib.Data.List.Nodup
import MarketStream.Proofs.Bus.Standing

/-!
# Requests get their own answers

However a bus delays, reorders, repeats or loses messages, a request is answered with what the
service says about its own payload, or its timer ends it. What keeps this is that nothing is on the
bus but requests and the segments of their answers, and that every request stands somewhere.

* `Sound` — where all requests stand, and what is on the bus;
* `Sound.touch` — what happens to one request leaves the others where they stand;
* `sound_of_reachable` — whatever happens keeps to it;
* `requests_get_their_answers` — what this means for the requests.
-/

namespace MarketStream.Bus

/-! ## Where all requests stand -/

/-- What may be on the bus: requests, and segments of the answers to them. -/
def Expected (a : Answerer) (calls : List Call) (inbox : String) (m : Message) : Prop :=
  (∃ c ∈ calls, m = (c.topic, (⟨c.id, inbox, c.payload⟩ : Request).encode)) ∨
    ∃ c ∈ calls, ∃ s ∈ a.segments c, m = (inbox, s.encode)

/-- What may become of requests. -/
def Proper (a : Answerer) (calls : List Call) (timeout : Nat) (r : Resolution) : Prop :=
  ∃ c ∈ calls, r = (c.id, .ok (a.reply c)) ∨ r = (c.id, .error (.timeout c.id timeout))

/-- Every request stands somewhere, and nothing but requests and their answers is about. -/
structure Sound (a : Answerer) (lag : Nat) (t : Traffic) : Prop where
  /-- Every request has a number of its own. -/
  ids : (t.calls.map Call.id).Nodup
  /-- Only requests that were made wait. -/
  pending : ∀ id, t.requester.find? id ≠ none → id ∈ t.calls.map Call.id
  /-- Only requests and segments of their answers were published. -/
  sent : ∀ m ∈ t.sent, Expected a t.calls t.requester.inbox m
  /-- What arrived had been published. -/
  arrived : ∀ e ∈ t.arrivals, (t.requester.inbox, e.2) ∈ t.sent
  /-- It arrived in the past. -/
  past : ∀ e ∈ t.arrivals, e.1 ≤ t.now
  /-- Only requests that were made were resolved. -/
  proper : ∀ r ∈ t.resolved, Proper a t.calls t.requester.timeout r
  /-- None was resolved twice. -/
  once : (t.resolved.map Prod.fst).Nodup
  /-- Where each request stands. -/
  standing : ∀ c ∈ t.calls, Standing a lag t c

section

variable {a : Answerer} {lag : Nat} {t t' : Traffic} {c d : Call}

theorem sound_start (inbox : String) (timeout segmentSize now : Nat) :
    Sound a lag (.start inbox timeout segmentSize now) where
  ids := List.nodup_nil
  pending id h := absurd rfl h
  sent _ h := by cases h
  arrived _ h := by cases h
  past _ h := by cases h
  proper _ h := by cases h
  once := List.nodup_nil
  standing _ h := by cases h

theorem Sound.eq_of_id_eq (h : Sound a lag t) (hc : c ∈ t.calls) (hd : d ∈ t.calls)
    (eq : c.id = d.id) : c = d :=
  List.inj_on_of_nodup_map h.ids hc hd eq

/-- Only segments of answers to requests that were made arrive. -/
theorem Sound.mem_calls_of_came (h : Sound a lag t) {s : Reply} (hs : s ∈ a.segments c)
    (came : t.Came s) : c.id ∈ t.calls.map Call.id := by
  obtain ⟨e, he, eq⟩ := List.mem_map.mp came
  rcases h.sent _ (h.arrived e he) with ⟨d, -, request⟩ | ⟨d, hd, u, hu, segment⟩
  · have same := (Prod.mk.inj request).2
    rw [eq] at same
    exact absurd same (s.encode_ne_request _)
  · have same := (Prod.mk.inj segment).2
    rw [eq] at same
    rw [← Answerer.id_of_mem_segments hs, Reply.encode_injective same,
      Answerer.id_of_mem_segments hu]
    exact List.mem_map_of_mem hd

theorem Sound.mem_calls_of_resolved (h : Sound a lag t) {id : Int64}
    (resolved : id ∈ t.resolved.map Prod.fst) : id ∈ t.calls.map Call.id := by
  obtain ⟨r, hr, rfl⟩ := List.mem_map.mp resolved
  obtain ⟨c, hc, eq⟩ := h.proper r hr
  rcases eq with rfl | rfl
  · exact List.mem_map_of_mem hc
  · exact List.mem_map_of_mem hc

/-- Only the request with a number is concerned. -/
structure Touches (t t' : Traffic) (id : Int64) (more : List Resolution) : Prop where
  /-- No request is made. -/
  calls : t'.calls = t.calls
  /-- Nothing is published. -/
  sent : t'.sent = t.sent
  /-- No time passes. -/
  now : t'.now = t.now
  /-- Replies are expected where they were. -/
  inbox : t'.requester.inbox = t.requester.inbox
  /-- Requests wait as long as they did. -/
  timeout : t'.requester.timeout = t.requester.timeout
  /-- The others wait as they did. -/
  find : ∀ other, other ≠ id → t'.requester.find? other = t.requester.find? other
  /-- What was resolved. -/
  resolved : t'.resolved = t.resolved ++ more

/-- What happens to one request leaves all others where they stand. -/
theorem Sound.touch (h : Sound a lag t) (hc : c ∈ t.calls) {more : List Resolution}
    (touches : Touches t t' c.id more)
    (arrived : ∀ e ∈ t'.arrivals, (t.requester.inbox, e.2) ∈ t.sent)
    (past : ∀ e ∈ t'.arrivals, e.1 ≤ t.now)
    (came : ∀ d, d.id ≠ c.id → ∀ s ∈ a.segments d, ∀ instant,
      t'.CameAt instant s ↔ t.CameAt instant s)
    (own : ∀ r ∈ more, r.1 = c.id ∧ Proper a t.calls t.requester.timeout r)
    (once : (t'.resolved.map Prod.fst).Nodup)
    (standing : Standing a lag t' c) : Sound a lag t' := by
  obtain ⟨calls, sent, now, inbox, timeout, find, resolved⟩ := touches
  refine ⟨calls ▸ h.ids, fun id waits => ?_, fun m hm => ?_, fun e he => ?_, now ▸ past,
    fun r hr => ?_, once, fun d hd => ?_⟩
  · rw [calls]
    by_cases same : id = c.id
    · exact same ▸ List.mem_map_of_mem hc
    · exact h.pending id (find id same ▸ waits)
  · rw [calls, inbox]
    exact h.sent m (sent ▸ hm)
  · rw [inbox, sent]
    exact arrived e he
  · rw [calls, timeout]
    rw [resolved] at hr
    exact (List.mem_append.mp hr).elim (h.proper r) fun hr => (own r hr).2
  · by_cases same : d.id = c.id
    · rw [h.eq_of_id_eq (calls ▸ hd) hc same]
      exact standing
    · -- All that was resolved bears the other number.
      have others : d.id ∉ more.map Prod.fst := by
        intro resolved
        obtain ⟨r, hr, eq⟩ := List.mem_map.mp resolved
        exact same (eq.symm.trans (own r hr).1)
      exact (h.standing d (calls ▸ hd)).frame (find d.id same) timeout now (came d same) resolved
        others

/-! ### Asking -/

/-- A request that is made begins to wait, with nothing on file. -/
theorem Sound.standing_new (h : Sound a lag t) {id : Int64} (topic : String) (payload : Bytes)
    (new : id ∉ t.calls.map Call.id) :
    Standing a lag (t.ask id topic payload)
      ⟨id, topic, payload, t.now + t.requester.timeout⟩ := by
  -- A segment with a new number would have answered a request that was made.
  have none_came : ∀ s ∈ a.segments ⟨id, topic, payload, t.now + t.requester.timeout⟩,
      ¬ t.Came s := fun s hs came => new (h.mem_calls_of_came hs came)
  refine .waits ?_ ?_ ?_ fun resolved => new (h.mem_calls_of_resolved resolved)
  · have pending := Requester.find?_issue t.requester t.now id id
    rw [if_pos rfl, ← holding_of_none none_came] at pending
    exact pending
  · intro all
    obtain ⟨s, hs⟩ := exists_mem_split id (a.answer topic payload) a.size
    exact none_came s hs (all s hs)
  · exact Nat.le_trans (Nat.le_add_right _ _) (Nat.le_add_right _ lag)

/-- A request that is made leaves all others where they stand. -/
theorem Sound.ask (h : Sound a lag t) {id : Int64} (topic : String) (payload : Bytes)
    (new : id ∉ t.calls.map Call.id) : Sound a lag (t.ask id topic payload) := by
  have calls : ∀ c ∈ t.calls, c ∈ (t.ask id topic payload).calls := fun c hc =>
    List.mem_append_left _ hc
  have find := Requester.find?_issue t.requester t.now id
  refine ⟨?_, fun other waits => ?_, fun m hm => ?_, fun e he => ?_, h.past, fun r hr => ?_,
    h.once, fun c hc => ?_⟩
  · exact nodup_map_concat h.ids new
  · show other ∈ (t.calls ++ [_]).map Call.id
    rw [List.map_append]
    by_cases same : other = id
    · exact List.mem_append_right _ (by simp [same])
    · refine List.mem_append_left _ (h.pending other fun gone => waits ?_)
      exact (find other).trans ((if_neg same).trans gone)
  · rcases List.mem_append.mp hm with hm | hm
    · rcases h.sent m hm with ⟨c, hc, eq⟩ | ⟨c, hc, s, hs, eq⟩
      · exact .inl ⟨c, calls c hc, eq⟩
      · exact .inr ⟨c, calls c hc, s, hs, eq⟩
    · exact .inl ⟨_, List.mem_append_right _ (List.mem_singleton_self _), List.mem_singleton.mp hm⟩
  · exact List.mem_append_left _ (h.arrived e he)
  · obtain ⟨c, hc, eq⟩ := h.proper r hr
    exact ⟨c, calls c hc, eq⟩
  · rcases List.mem_append.mp hc with hc | hc
    · have ne : c.id ≠ id := fun eq => new (eq ▸ List.mem_map_of_mem hc)
      exact (h.standing c hc).frame ((find c.id).trans (if_neg ne)) rfl rfl
        (fun _ _ _ => Iff.rfl) (List.append_nil _).symm (by simp)
    · obtain rfl := List.mem_singleton.mp hc
      exact h.standing_new topic payload new

/-! ### Serving -/

/-- A responder answers a request with the segments of its answer. -/
theorem published_request (a : Answerer) (l : Station.Ledger) (inbox : String) (c : Call) :
    Traffic.published (Station.react (.service a.responder)
      (c.topic, (⟨c.id, inbox, c.payload⟩ : Request).encode) l).2
      = (a.segments c).map fun s => (inbox, s.encode) := by
  rw [Station.react, Responder.respond, Request.decode?_encode]
  rfl

/-- A responder does not answer a segment. -/
theorem published_segment (a : Answerer) (l : Station.Ledger) (topic : String) (s : Reply) :
    Traffic.published (Station.react (.service a.responder) (topic, s.encode) l).2 = [] := by
  rw [Station.react, Responder.respond, Request.decode?_reply]
  rfl

/-- A message that reaches the responder makes it publish segments of the answer, or nothing. -/
theorem Sound.serve (h : Sound a lag t) {message : Message} (sent : message ∈ t.sent) :
    Sound a lag (t.serve a.responder message) := by
  have expected : ∀ m ∈ Traffic.published
      (Station.react (.service a.responder) message t.ledger).2,
      Expected a t.calls t.requester.inbox m := by
    intro m hm
    rcases h.sent message sent with ⟨c, hc, rfl⟩ | ⟨c, hc, s, hs, rfl⟩
    · rw [published_request] at hm
      obtain ⟨s, hs, rfl⟩ := List.mem_map.mp hm
      exact .inr ⟨c, hc, s, hs, rfl⟩
    · rw [published_segment] at hm
      cases hm
  refine { h with sent := fun m hm => ?_, arrived := fun e he => ?_, standing := fun c hc => ?_ }
  · exact (List.mem_append.mp hm).elim (h.sent m) (expected m)
  · exact List.mem_append_left _ (h.arrived e he)
  · exact (h.standing c hc).frame rfl rfl rfl (fun _ _ _ => Iff.rfl) (List.append_nil _).symm
      (by simp)

/-! ### Delivering -/

/-- What was published may arrive now. -/
theorem Sound.arrived_concat (h : Sound a lag t) {data : Bytes}
    (sent : (t.requester.inbox, data) ∈ t.sent) :
    ∀ e ∈ t.arrivals ++ [(t.now, data)], (t.requester.inbox, e.2) ∈ t.sent ∧ e.1 ≤ t.now := by
  intro e he
  rcases List.mem_append.mp he with he | he
  · exact ⟨h.arrived e he, h.past e he⟩
  · rw [List.mem_singleton.mp he]
    exact ⟨sent, Nat.le_refl _⟩

/-- A segment concerns only the request that it answers. -/
theorem Sound.took (h : Sound a lag t) (hc : c ∈ t.calls) {s : Reply} (hs : s ∈ a.segments c)
    (sent : (t.requester.inbox, s.encode) ∈ t.sent) {r : Requester} {more : List Resolution}
    (inbox : r.inbox = t.requester.inbox) (timeout : r.timeout = t.requester.timeout)
    (find : ∀ other, other ≠ c.id → r.find? other = t.requester.find? other)
    (own : ∀ x ∈ more, x = (c.id, .ok (a.reply c)))
    (once : ((t.resolved ++ more).map Prod.fst).Nodup)
    (standing : Standing a lag (t.took s (r, more)) c) : Sound a lag (t.took s (r, more)) := by
  have arrived := h.arrived_concat sent
  refine h.touch hc ⟨rfl, rfl, rfl, inbox, timeout, find, rfl⟩ (fun e he => (arrived e he).1)
    (fun e he => (arrived e he).2) ?_ ?_ once standing
  · intro d ne u hu instant
    rw [cameAt_took]
    refine or_iff_left fun new => ne ?_
    rw [← Answerer.id_of_mem_segments hs, ← Answerer.id_of_mem_segments hu, new.2]
  · intro x hx
    rw [own x hx]
    exact ⟨rfl, c, hc, .inl rfl⟩

/-- A segment moves the request on that it answers, or finds that it waits no more. -/
theorem Sound.took_receive (h : Sound a lag t) (hc : c ∈ t.calls) (fits : a.Fits c) {s : Reply}
    (hs : s ∈ a.segments c) (sent : (t.requester.inbox, s.encode) ∈ t.sent) :
    Sound a lag (t.took s (t.requester.receive s)) := by
  have once : ((t.resolved ++ []).map Prod.fst).Nodup := by
    rw [List.append_nil]
    exact h.once
  have late : t.requester.find? c.id = none → Sound a lag (t.took s (t.requester.receive s)) := by
    intro gone
    rw [Requester.receive_of_none (Answerer.id_of_mem_segments hs ▸ gone)]
    exact h.took hc hs sent rfl rfl (fun _ _ => rfl) (by simp) once
      ((h.standing c hc).took_late gone)
  cases h.standing c hc with
  | waits pending missing punctual unresolved =>
    rw [receive_segment fits hs pending]
    split
    · next last =>
      refine h.took hc hs sent rfl rfl (fun other ne => ?_) (by simp) ?_
        (.took_last h.past punctual last)
      · exact (Requester.find?_remove t.requester c.id other).trans (if_neg ne)
      · exact nodup_map_concat h.once unresolved
    · next missing =>
      have find := Requester.find?_update t.requester c.id
        (holding (a.segments c) fun u => t.Came u ∨ u = s)
      refine h.took hc hs sent rfl rfl (fun other ne => ?_) (by simp) once
        (.took_next ?_ missing punctual unresolved)
      · rw [find]
        simp only [if_neg ne, Option.map_id']
      · rw [find, pending, Option.map_some, if_pos rfl]
  | answered gone => exact late gone
  | timedOut gone => exact late gone

/-- A message that reaches the inbox concerns at most one request. -/
theorem Sound.deliver (h : Sound a lag t) (fits : ∀ c ∈ t.calls, a.Fits c) {data : Bytes}
    (sent : (t.requester.inbox, data) ∈ t.sent) : Sound a lag (t.deliver data) := by
  -- A request in the inbox is no reply, so it only counts as an arrival.
  rcases h.sent _ sent with ⟨c, hc, request⟩ | ⟨c, hc, s, hs, segment⟩
  · obtain rfl := (Prod.mk.inj request).2
    rw [deliver_request]
    have arrived := h.arrived_concat sent
    refine { h with
      arrived := fun e he => (arrived e he).1
      past := fun e he => (arrived e he).2
      standing := fun d hd => ?_ }
    refine (h.standing d hd).frame rfl rfl rfl (fun s _ instant => ?_)
      (List.append_nil _).symm (by simp)
    simp [Traffic.CameAt, s.encode_ne_request]
  · obtain rfl := (Prod.mk.inj segment).2
    rw [deliver_segment]
    exact h.took_receive hc (fits c hc) hs sent

/-! ### Time -/

/-- A timer that goes off ends a request that waited in vain. -/
theorem Sound.lapse (h : Sound a lag t) {id : Int64} {p : Pending}
    (waits : t.requester.find? id = some p) (due : p.deadline ≤ t.now) :
    Sound a lag (t.lapse id) := by
  -- Of the ways in which a request can stand, only waiting leaves it in the table.
  obtain ⟨c, hc, rfl⟩ := List.mem_map.mp (h.pending id (by simp [waits]))
  have find := Requester.find?_remove t.requester c.id
  cases h.standing c hc with
  | answered gone =>
    rw [gone] at waits
    cases waits
  | timedOut gone =>
    rw [gone] at waits
    cases waits
  | waits pending missing punctual unresolved =>
    rw [pending] at waits
    obtain rfl := Option.some.inj waits
    refine h.touch hc ⟨rfl, rfl, rfl, rfl, rfl, fun other ne => (find other).trans (if_neg ne), rfl⟩
      h.arrived h.past (fun _ _ _ _ _ => Iff.rfl) ?_ ?_ (.timedOut ?_ ?_ ?_ due)
    · intro r hr
      rw [List.mem_singleton.mp hr]
      exact ⟨rfl, c, hc, .inr rfl⟩
    · exact nodup_map_concat h.once unresolved
    · exact (find c.id).trans (if_pos rfl)
    · exact List.mem_append_right _ (List.mem_singleton_self _)
    · obtain ⟨s, hs, not_came⟩ : ∃ s ∈ a.segments c, ¬ t.Came s := by simpa using missing
      exact ⟨s, hs, fun instant _ at_ => not_came (Traffic.came_iff.mpr ⟨instant, at_⟩)⟩

/-- Time passes no further than the timers of those that wait allow. -/
theorem Sound.pass (h : Sound a lag t) {ms : Nat}
    (prompt : ∀ id p, t.requester.find? id = some p → t.now + ms ≤ p.deadline + lag) :
    Sound a lag (t.pass ms) := by
  refine { h with
    past := fun e he => Nat.le_trans (h.past e he) (Nat.le_add_right _ ms)
    standing := fun c hc => ?_ }
  cases h.standing c hc with
  | waits pending missing _ unresolved =>
    exact .waits pending missing (prompt _ _ pending) unresolved
  | answered gone resolved complete => exact .answered gone resolved complete
  | timedOut gone resolved late overdue =>
    exact .timedOut gone resolved late (Nat.le_trans overdue (Nat.le_add_right _ ms))

theorem Sound.step (h : Sound a lag t) (fits : ∀ c ∈ t.calls, a.Fits c)
    (next : Traffic.Step a.responder lag t t') :
    Sound a lag t' := by
  cases next with
  | ask id topic payload new => exact h.ask topic payload new
  | serve message sent => exact h.serve sent
  | deliver data sent => exact h.deliver fits sent
  | lapse id p waits due => exact h.lapse waits due
  | pass ms prompt => exact h.pass prompt

/-- Whatever happens, every request stands somewhere. -/
theorem sound_of_reachable (h : Traffic.Reachable a.responder lag t)
    (fits : ∀ c ∈ t.calls, a.Fits c) : Sound a lag t := by
  induction h with
  | start inbox timeout segmentSize now => exact sound_start inbox timeout segmentSize now
  | step _ next ih =>
    have fits_before := fun c hc => fits c (next.calls_subset hc)
    exact (ih fits_before).step fits_before next

/-- A request is resolved once its timer must have gone off. -/
theorem Sound.resolved_of_late (h : Sound a lag t) (hc : c ∈ t.calls)
    (late : c.deadline + lag < t.now) : c.id ∈ t.resolved.map Prod.fst := by
  cases h.standing c hc with
  | waits _ _ punctual => omega
  | answered _ resolved => exact List.mem_map_of_mem (f := Prod.fst) resolved
  | timedOut _ resolved => exact List.mem_map_of_mem (f := Prod.fst) resolved

/-- There is an instant by which no request waits any more. -/
theorem exists_last_deadline (calls : List Call) : ∃ last, ∀ c ∈ calls, c.deadline ≤ last := by
  induction calls with
  | nil => exact ⟨0, by simp⟩
  | cons c rest ih =>
    obtain ⟨last, le⟩ := ih
    refine ⟨max c.deadline last, fun d hd => ?_⟩
    rcases List.mem_cons.mp hd with rfl | hd
    · exact Nat.le_max_left _ _
    · exact Nat.le_trans (le d hd) (Nat.le_max_right _ _)

/-- No request waits for ever: even if nothing arrives any more, all timers come to go off, and then
all requests are resolved. -/
theorem exists_all_resolved (reached : Traffic.Reachable a.responder lag t)
    (fits : ∀ c ∈ t.calls, a.Fits c) :
    ∃ t', Traffic.Leads a.responder lag t t' ∧ Traffic.Idle t t' ∧
      ∀ c ∈ t.calls, c.deadline + lag < t'.now ∧ c.id ∈ t'.resolved.map Prod.fst := by
  obtain ⟨last, le⟩ := exists_last_deadline t.calls
  obtain ⟨t', leads, idle, later⟩ := Traffic.exists_later t (last + lag + 1)
  have sound := sound_of_reachable (reached.leads leads) (idle.calls ▸ fits)
  refine ⟨t', leads, idle, fun c hc => ?_⟩
  have before := le c hc
  have late : c.deadline + lag < t'.now := by omega
  exact ⟨late, sound.resolved_of_late (idle.calls ▸ hc) late⟩

end

/-- **Requests get their own answers.** Whatever the order in which requests and segments arrive,
late, many times or never, and in which timers go off, each at most `lag` after its deadline: no
request is resolved twice; one that succeeds carries the answer to its own payload, whole; one whose
segments all arrived before its deadline has succeeded; one of which some segment had not arrived when
its timer must have gone off has been timed out; and even if nothing arrives any more, all timers come
to go off, and then all requests are resolved. -/
theorem requests_get_their_answers (a : Answerer) {lag : Nat} {t : Traffic}
    (reached : Traffic.Reachable a.responder lag t) (fits : ∀ c ∈ t.calls, a.Fits c) :
    (t.resolved.map Prod.fst).Nodup ∧
    (∀ id reply, (id, .ok reply) ∈ t.resolved → ∃ c ∈ t.calls, c.id = id ∧
      reply = ⟨id, 1, 1, a.answer c.topic c.payload, ""⟩) ∧
    (∀ c ∈ t.calls, (∀ s ∈ a.segments c, ∃ instant < c.deadline, t.CameAt instant s) →
      (c.id, .ok ⟨c.id, 1, 1, a.answer c.topic c.payload, ""⟩) ∈ t.resolved) ∧
    (∀ c ∈ t.calls, c.deadline + lag < t.now →
      (∃ s ∈ a.segments c, ∀ instant ≤ c.deadline + lag, ¬ t.CameAt instant s) →
      (c.id, .error (.timeout c.id t.requester.timeout)) ∈ t.resolved) ∧
    (∃ t', Traffic.Leads a.responder lag t t' ∧ Traffic.Idle t t' ∧
      ∀ c ∈ t.calls, c.deadline + lag < t'.now ∧ c.id ∈ t'.resolved.map Prod.fst) := by
  have sound := sound_of_reachable reached fits
  refine ⟨sound.once, fun id reply ok => ?_, fun c hc inTime => ?_, fun c hc late missed => ?_,
    exists_all_resolved reached fits⟩
  · obtain ⟨c, hc, answered | timedOut⟩ := sound.proper _ ok
    · obtain ⟨rfl, same⟩ := Prod.mk.inj answered
      exact ⟨c, hc, rfl, Except.ok.inj same⟩
    · cases (Prod.mk.inj timedOut).2
  · cases sound.standing c hc with
    | waits _ missing =>
      refine absurd (fun s hs => ?_) missing
      obtain ⟨instant, -, at_⟩ := inTime s hs
      exact Traffic.came_iff.mpr ⟨instant, at_⟩
    | answered _ resolved => exact resolved
    | timedOut _ _ late =>
      obtain ⟨s, hs, never⟩ := late
      obtain ⟨instant, lt, at_⟩ := inTime s hs
      exact absurd at_ (never instant lt)
  · cases sound.standing c hc with
    | waits _ _ punctual => omega
    | answered _ _ complete =>
      obtain ⟨s, hs, never⟩ := missed
      obtain ⟨instant, le, at_⟩ := complete s hs
      exact absurd at_ (never instant le)
    | timedOut _ resolved => exact resolved

/-! ## Two requests -/

namespace Sample

/-- A service that answers with what it is asked, two bytes to a segment. -/
def echo : Answerer := ⟨fun _ payload => payload, 2⟩

/-- The first segment of the first answer. -/
def first : Reply := ⟨7, 1, 2, [1, 2], ""⟩

/-- The second segment of the first answer. -/
def second : Reply := ⟨7, 2, 2, [3], ""⟩

/-- Two requests, of which the first reaches the service. -/
def served : Traffic :=
  (((Traffic.start "in" 100 2 0).ask 7 "echo" [1, 2, 3]).ask 8 "echo" [9]).serve echo.responder
    ("echo", (⟨7, "in", [1, 2, 3]⟩ : Request).encode)

/-- The segments of the first answer arrive in reverse order, one of them twice; the second request
is lost, and its time passes. -/
def traffic : Traffic :=
  (((((served.deliver second.encode).deliver second.encode).deliver first.encode).pass 100).lapse
    8).pass 1

theorem pass_of_pending {t : Traffic} (ms : Nat)
    (prompt : ∀ e ∈ t.requester.pending, t.now + ms ≤ e.2.deadline) :
    Traffic.Step echo.responder 0 t (t.pass ms) :=
  .pass ms fun _ _ waits => prompt _ (mem_of_lookup waits)

theorem sent_served {s : Reply} (h : s ∈ [first, second]) : ("in", s.encode) ∈ served.sent := by
  have published := published_request echo
    (((Traffic.start "in" 100 2 0).ask 7 "echo" [1, 2, 3]).ask 8 "echo" [9]).ledger "in"
    ⟨7, "echo", [1, 2, 3], 100⟩
  rw [served, Traffic.serve, published]
  exact List.mem_append_right _ (List.mem_map_of_mem h)

/-- What comes of it. -/
theorem traffic_eq :
    traffic.calls = [⟨7, "echo", [1, 2, 3], 100⟩, ⟨8, "echo", [9], 100⟩] ∧ traffic.now = 101 ∧
      traffic.arrivals = [(0, second.encode), (0, second.encode), (0, first.encode)] ∧
      traffic.requester.timeout = 100 := by
  rw [traffic, deliver_segment, deliver_segment, deliver_segment]
  exact ⟨rfl, rfl, rfl, rfl⟩

theorem reachable_traffic : Traffic.Reachable echo.responder 0 traffic := by
  have start : Traffic.Reachable echo.responder 0 (Traffic.start "in" 100 2 0) := .start ..
  have asked := (start.step (.ask 7 "echo" [1, 2, 3] (by decide))).step
    (.ask 8 "echo" [9] (by decide))
  have served : Traffic.Reachable echo.responder 0 served := asked.step (.serve _ (.head _))
  have once := served.step (.deliver second.encode (sent_served (by simp)))
  rw [deliver_segment] at once
  have twice := once.step (.deliver second.encode (sent_served (by simp)))
  rw [deliver_segment] at twice
  have arrived := twice.step (.deliver first.encode (sent_served (by simp)))
  rw [deliver_segment] at arrived
  have lapsed := (arrived.step (pass_of_pending 100 (by decide))).step
    (.lapse 8 ⟨.empty, 100⟩ rfl (by decide))
  rw [traffic, deliver_segment, deliver_segment, deliver_segment]
  exact lapsed.step (pass_of_pending 1 (by decide))

end Sample

/-- The first request is answered, the second is timed out. -/
theorem requests_get_their_answers_sample :
    Traffic.Reachable Sample.echo.responder 0 Sample.traffic ∧
      (∀ c ∈ Sample.traffic.calls, Sample.echo.Fits c) ∧
      (7, .ok ⟨7, 1, 1, [1, 2, 3], ""⟩) ∈ Sample.traffic.resolved ∧
      (8, .error (.timeout 8 100)) ∈ Sample.traffic.resolved := by
  obtain ⟨calls, now, arrivals, timeout⟩ := Sample.traffic_eq
  have fits : ∀ c ∈ Sample.traffic.calls, Sample.echo.Fits c := by
    rw [calls]
    simp [Answerer.Fits, Sample.echo]
  obtain ⟨-, -, answered, timedOut, -⟩ :=
    requests_get_their_answers Sample.echo Sample.reachable_traffic fits
  rw [calls] at answered
  rw [calls, now, timeout] at timedOut
  refine ⟨Sample.reachable_traffic, fits, answered _ (.head _) fun s hs => ?_,
    timedOut ⟨8, "echo", [9], 100⟩ (.tail _ (.head _)) (by decide) ⟨⟨8, 1, 1, [9], ""⟩, ?_, ?_⟩⟩
  · have own : s ∈ [Sample.first, Sample.second] := hs
    refine ⟨0, by decide, ?_⟩
    rw [Traffic.CameAt, arrivals]
    simp only [List.mem_cons, List.not_mem_nil, or_false] at own
    rcases own with rfl | rfl
    · exact .tail _ (.tail _ (.head _))
    · exact .head _
  · exact .head _
  · intro instant _ came
    rw [Traffic.CameAt, arrivals] at came
    obtain ⟨u, hu, same⟩ := List.mem_map.mp
      (show _ ∈ [Sample.second, Sample.second, Sample.first].map Reply.encode from
        List.mem_map_of_mem (f := Prod.snd) came)
    rw [Reply.encode_injective same] at hu
    exact absurd hu (by decide)

end MarketStream.Bus
