import Mathlib.Data.List.Nodup
import MarketStream.Proofs.Bus.Standing

/-!
# Failures of a service

When a service fails on a request, its responder publishes one segment with the texts of the causes.
If the segment reaches the requester in time, the request fails with the same text, whatever else is
on the bus; but a failure without any text cannot be told from an empty answer, and counts as one.

* `Requester.Concerns` — what happens to one request leaves all others alone;
* `OnBus` — what may be on a bus with one responder; `Fate` — what becomes of a request that fails;
* `Overseen` — what becomes of all requests that fail; `overseen_of_reachable` — in any order;
* `failure_surfaces_unless_textless` — what this means for such a request.
-/

namespace MarketStream.Bus

/-! ## One request -/

/-- What happens concerns one request only. -/
structure Requester.Concerns (r : Requester) (id : Int64)
    (outcome : Requester × List Resolution) : Prop where
  /-- Replies are expected where they were. -/
  inbox : outcome.1.inbox = r.inbox
  /-- Requests wait as long as they did. -/
  timeout : outcome.1.timeout = r.timeout
  /-- The others wait as they did. -/
  find : ∀ other, other ≠ id → outcome.1.find? other = r.find? other
  /-- The request does not come back to the table. -/
  kept : outcome.1.find? id ≠ none → r.find? id ≠ none
  /-- Only this request is resolved, if it was in the table. -/
  resolved : ∀ x ∈ outcome.2, x.1 = id ∧ r.find? id ≠ none

namespace Requester

variable {r : Requester} {id : Int64}

theorem concerns_nothing (r : Requester) (id : Int64) : r.Concerns id (r, []) :=
  ⟨rfl, rfl, fun _ _ => rfl, fun waits => waits, fun _ none => by cases none⟩

theorem concerns_remove (waits : r.find? id ≠ none) {news : List Resolution}
    (own : ∀ x ∈ news, x.1 = id) : r.Concerns id (r.remove id, news) where
  inbox := rfl
  timeout := rfl
  find other ne := (find?_remove r id other).trans (if_neg ne)
  kept _ := waits
  resolved x hx := ⟨own x hx, waits⟩

/-- A segment concerns only the request whose number it has. -/
theorem concerns_receive (r : Requester) (m : Reply) : r.Concerns m.id (r.receive m) := by
  cases found : r.find? m.id with
  | none => exact (receive_of_none found).symm ▸ concerns_nothing r m.id
  | some p =>
    have waits : r.find? m.id ≠ none := by simp [found]
    rcases feed : p.reassembly.feed m with ⟨a, _ | _, w⟩
    · rw [receive_of_incomplete found feed]
      refine ⟨rfl, rfl, fun other ne => ?_, fun _ => waits, fun _ none => by cases none⟩
      rw [find?_update]
      simp only [if_neg ne, Option.map_id']
    · rw [receive_of_complete found (congrArg Prod.snd feed)]
      refine concerns_remove waits fun x hx => ?_
      obtain ⟨_, -, rfl⟩ := List.mem_map.mp hx
      rfl

end Requester

/-! ## What is on the bus -/

/-- What may be on a bus with one responder: requests, and the segments it answers them with. -/
def OnBus (r : Responder) (calls : List Call) (inbox : String) (m : Message) : Prop :=
  ∃ c ∈ calls,
    m = (c.topic, (⟨c.id, inbox, c.payload⟩ : Request).encode) ∨
      ∃ s ∈ r.answer c.topic ⟨c.id, inbox, c.payload⟩, m = (inbox, s.encode)

theorem OnBus.mono {r : Responder} {calls calls' : List Call} {inbox : String} {m : Message}
    (h : OnBus r calls inbox m) (more : calls ⊆ calls') : OnBus r calls' inbox m := by
  obtain ⟨c, hc, m_eq⟩ := h
  exact ⟨c, more hc, m_eq⟩

/-- Every segment of an answer has the number of the request. -/
theorem id_of_mem_answer {r : Responder} {topic : String} {q : Request} {s : Reply}
    (h : s ∈ r.answer topic q) : s.id = q.id := by
  rw [Responder.answer] at h
  split at h
  · exact id_of_mem_split h
  · rw [List.mem_singleton.mp h]
    rfl

/-- What a responder publishes when it is served a request. -/
theorem react_request (r : Responder) (l : Station.Ledger) (topic : String) (q : Request) :
    Station.react (.service r) (topic, q.encode) l =
      (l, .ok ((r.answer topic q).map fun s => (q.replyTo, s.encode))) := by
  rw [Station.react, Responder.respond, Request.decode?_encode]

/-- What a responder is served on a bus makes it publish segments of an answer, or nothing. -/
theorem onBus_of_published {r : Responder} {calls : List Call} {inbox : String} {m : Message}
    (h : OnBus r calls inbox m) (l : Station.Ledger) :
    ∀ m' ∈ Traffic.published (Station.react (.service r) m l).2, OnBus r calls inbox m' := by
  obtain ⟨c, hc, rfl | ⟨s, -, rfl⟩⟩ := h
  · rw [react_request]
    intro m' hm'
    obtain ⟨s, hs, rfl⟩ := List.mem_map.mp hm'
    exact ⟨c, hc, .inr ⟨s, hs, rfl⟩⟩
  · rw [Station.react, Responder.respond, Request.decode?_reply]
    exact fun _ none => by cases none

/-! ## What becomes of a request that fails -/

/-- What became of a request so far. -/
def Traffic.resultsOf (t : Traffic) (id : Int64) : List (Except Fault Reply) :=
  (t.resolved.filter fun x => x.1 == id).map Prod.snd

/-- What becomes of a request that fails with a text. -/
inductive Fate (text : String) (lag : Nat) (t : Traffic) (c : Call) : Prop where
  /-- It waits, and has not been told. -/
  | waits
    (pending : t.requester.find? c.id = some ⟨.empty, c.deadline⟩)
    (untold : ¬ t.Came (.failure c.id text))
    (punctual : t.now ≤ c.deadline + lag)
    (results : t.resultsOf c.id = [])
  /-- It has been told. -/
  | told
    (gone : t.requester.find? c.id = none)
    (results : t.resultsOf c.id = [Requester.outcome (.failure c.id text)])
  /-- Its time was up before it was told. -/
  | timedOut
    (gone : t.requester.find? c.id = none)
    (results : t.resultsOf c.id = [.error (.timeout c.id t.requester.timeout)])
    (late : ∀ instant < c.deadline, ¬ t.CameAt instant (.failure c.id text))
    (overdue : c.deadline ≤ t.now)

section

variable {r : Responder} {lag : Nat} {t t' : Traffic} {c : Call} {text : String}

theorem resultsOf_append {more : List Resolution} {id : Int64}
    (resolved : t'.resolved = t.resolved ++ more) :
    t'.resultsOf id = t.resultsOf id ++ (more.filter fun x => x.1 == id).map Prod.snd := by
  rw [Traffic.resultsOf, resolved, List.filter_append, List.map_append]
  rfl

theorem resultsOf_of_others {more : List Resolution} {id : Int64}
    (resolved : t'.resolved = t.resolved ++ more) (others : ∀ x ∈ more, x.1 ≠ id) :
    t'.resultsOf id = t.resultsOf id := by
  have none_own : more.filter (fun x => x.1 == id) = [] :=
    List.filter_eq_nil_iff.mpr fun x hx own => others x hx (beq_iff_eq.mp own)
  rw [resultsOf_append resolved, none_own]
  exact List.append_nil _

theorem resultsOf_of_own {id : Int64} {result : Except Fault Reply}
    (resolved : t'.resolved = t.resolved ++ [(id, result)]) (first : t.resultsOf id = []) :
    t'.resultsOf id = [result] := by
  rw [resultsOf_append resolved, first]
  simp

theorem mem_resultsOf {id : Int64} {result : Except Fault Reply} :
    result ∈ t.resultsOf id ↔ (id, result) ∈ t.resolved := by
  constructor
  · intro h
    obtain ⟨x, hx, rfl⟩ := List.mem_map.mp h
    obtain ⟨mem, own⟩ := List.mem_filter.mp hx
    exact beq_iff_eq.mp own ▸ mem
  · exact fun h => List.mem_map.mpr ⟨(id, result), List.mem_filter.mpr ⟨h, beq_self_eq_true id⟩, rfl⟩

/-- What became of a request stays so if nothing happens to it. -/
theorem Fate.frame (h : Fate text lag t c)
    (find : t'.requester.find? c.id = t.requester.find? c.id)
    (timeout : t'.requester.timeout = t.requester.timeout) (now : t'.now = t.now)
    (came : ∀ instant, t'.CameAt instant (.failure c.id text) ↔
      t.CameAt instant (.failure c.id text))
    (results : t'.resultsOf c.id = t.resultsOf c.id) : Fate text lag t' c := by
  cases h with
  | waits pending untold punctual nothing =>
    refine .waits (find.trans pending) (fun told => untold ?_) (now ▸ punctual)
      (results.trans nothing)
    obtain ⟨instant, at_⟩ := Traffic.came_iff.mp told
    exact Traffic.came_iff.mpr ⟨instant, (came instant).mp at_⟩
  | told gone outcome => exact .told (find.trans gone) (results.trans outcome)
  | timedOut gone outcome late overdue =>
    refine .timedOut (find.trans gone) (timeout ▸ results.trans outcome) (fun instant lt at_ => ?_)
      (now ▸ overdue)
    exact late instant lt ((came instant).mp at_)

/-- The segment that tells of the failure resolves a request that waits, and changes nothing for one
that does not. -/
theorem Fate.took_failure (h : Fate text lag t c) :
    Fate text lag (t.took (.failure c.id text) (t.requester.receive (.failure c.id text))) c := by
  have ignored (gone : t.requester.find? c.id = none) :
      t.requester.receive (.failure c.id text) = (t.requester, []) :=
    Requester.receive_of_none gone
  have same : (t.took (.failure c.id text) (t.requester, [])).resultsOf c.id = t.resultsOf c.id :=
    resultsOf_of_others rfl (by simp)
  cases h with
  | waits pending untold punctual nothing =>
    have single : (Reassembly.empty.feed (.failure c.id text)).2
        = (true, some (.failure c.id text)) := by
      rw [Reassembly.feed, if_pos (.inl (by decide : (1 : Int64).toInt ≤ 1))]
      rfl
    have taken : t.requester.receive (.failure c.id text) = (t.requester.remove c.id,
        [(c.id, Requester.outcome (.failure c.id text))]) := by
      have own : t.requester.find? (Reply.failure c.id text).id = _ := pending
      exact Requester.receive_of_complete own single
    rw [taken]
    exact .told ((Requester.find?_remove _ _ _).trans (if_pos rfl)) (resultsOf_of_own rfl nothing)
  | told gone outcome =>
    rw [ignored gone]
    exact .told gone (same.trans outcome)
  | timedOut gone outcome late overdue =>
    rw [ignored gone]
    refine .timedOut gone (same.trans outcome) (fun instant lt at_ => ?_) overdue
    -- What comes now does not come before the deadline, which is past.
    rcases cameAt_took.mp at_ with at_ | ⟨rfl, -⟩
    · exact late instant lt at_
    · exact Nat.not_lt.mpr overdue lt

/-- A timer that goes off resolves a request that was not told. -/
theorem Fate.lapse (h : Fate text lag t c) {p : Pending}
    (waits : t.requester.find? c.id = some p) (due : p.deadline ≤ t.now) :
    Fate text lag (t.lapse c.id) c := by
  cases h with
  | told gone => cases waits.symm.trans gone
  | timedOut gone => cases waits.symm.trans gone
  | waits pending untold punctual nothing =>
    obtain rfl := Option.some.inj (pending.symm.trans waits)
    exact .timedOut ((Requester.find?_remove _ _ _).trans (if_pos rfl))
      (resultsOf_of_own rfl nothing)
      (fun instant _ at_ => untold (Traffic.came_iff.mpr ⟨instant, at_⟩)) due

/-! ## All requests that fail -/

/-- Nothing but requests and the segments of their answers is about, and every request that fails
has its fate. -/
structure Overseen (r : Responder) (lag : Nat) (t : Traffic) : Prop where
  /-- Every request has a number of its own. -/
  ids : (t.calls.map Call.id).Nodup
  /-- Only requests that were made wait. -/
  pending : ∀ id, t.requester.find? id ≠ none → id ∈ t.calls.map Call.id
  /-- Only requests and segments of their answers were published. -/
  sent : ∀ m ∈ t.sent, OnBus r t.calls t.requester.inbox m
  /-- What arrived had been published. -/
  arrived : ∀ e ∈ t.arrivals, (t.requester.inbox, e.2) ∈ t.sent
  /-- Only requests that were made were resolved. -/
  resolved : ∀ x ∈ t.resolved, x.1 ∈ t.calls.map Call.id
  /-- What became of those that fail. -/
  fate : ∀ c ∈ t.calls, ∀ causes, r.service c.topic c.payload = .error causes →
    Fate (Fault.chain causes) lag t c

theorem overseen_start (inbox : String) (timeout segmentSize now : Nat) :
    Overseen r lag (.start inbox timeout segmentSize now) where
  ids := List.nodup_nil
  pending id h := absurd rfl h
  sent _ h := by cases h
  arrived _ h := by cases h
  resolved _ h := by cases h
  fate _ h := by cases h

theorem Overseen.eq_of_id_eq (h : Overseen r lag t) {d : Call} (hc : c ∈ t.calls)
    (hd : d ∈ t.calls) (eq : c.id = d.id) : c = d :=
  List.inj_on_of_nodup_map h.ids hc hd eq

/-- Only segments for requests that were made arrive. -/
theorem Overseen.mem_calls_of_came (h : Overseen r lag t) {s : Reply} (came : t.Came s) :
    s.id ∈ t.calls.map Call.id := by
  obtain ⟨e, he, eq⟩ := List.mem_map.mp came
  obtain ⟨c, hc, request | ⟨u, hu, segment⟩⟩ := h.sent _ (h.arrived e he)
  · exact absurd (eq.symm.trans (Prod.mk.inj request).2) (s.encode_ne_request _)
  · rw [Reply.encode_injective (eq.symm.trans (Prod.mk.inj segment).2), id_of_mem_answer hu]
    exact List.mem_map_of_mem hc

/-- What happens to one request leaves all others to their fates. -/
theorem Overseen.settle (h : Overseen r lag t) {id : Int64}
    {outcome : Requester × List Resolution} (concerns : t.requester.Concerns id outcome)
    (ledger : t'.ledger = t.ledger.settle outcome) (calls : t'.calls = t.calls)
    (sent : t'.sent = t.sent) (now : t'.now = t.now)
    (arrived : ∀ e ∈ t'.arrivals, (t.requester.inbox, e.2) ∈ t.sent)
    (came : ∀ s : Reply, s.id ≠ id → ∀ instant, t'.CameAt instant s ↔ t.CameAt instant s)
    (own : ∀ c ∈ t.calls, c.id = id → ∀ causes, r.service c.topic c.payload = .error causes →
      Fate (Fault.chain causes) lag t' c) : Overseen r lag t' := by
  have table : t'.requester = outcome.1 := congrArg Station.Ledger.requester ledger
  have news : t'.resolved = t.resolved ++ outcome.2 := congrArg Station.Ledger.resolved ledger
  refine ⟨calls ▸ h.ids, fun k waits => ?_, fun m hm => ?_, fun e he => ?_, fun x hx => ?_,
    fun c hc causes fails => ?_⟩
  · rw [table] at waits
    rw [calls]
    by_cases same : k = id
    · exact same ▸ h.pending id (concerns.kept (same ▸ waits))
    · exact h.pending k (concerns.find k same ▸ waits)
  · rw [calls, table, concerns.inbox]
    exact h.sent m (sent ▸ hm)
  · rw [table, concerns.inbox, sent]
    exact arrived e he
  · rw [calls]
    rw [news] at hx
    rcases List.mem_append.mp hx with old | new
    · exact h.resolved x old
    · obtain ⟨rfl, waits⟩ := concerns.resolved x new
      exact h.pending x.1 waits
  · rw [calls] at hc
    by_cases same : c.id = id
    · exact own c hc same causes fails
    · refine (h.fate c hc causes fails).frame ?_ ?_ now (came _ same) ?_
      · rw [table, concerns.find c.id same]
      · rw [table, concerns.timeout]
      · exact resultsOf_of_others news fun x hx eq =>
          same (eq.symm.trans (concerns.resolved x hx).1)

theorem Overseen.ask (h : Overseen r lag t) {id : Int64} (topic : String) (payload : Bytes)
    (new : id ∉ t.calls.map Call.id) : Overseen r lag (t.ask id topic payload) := by
  have old : t.calls ⊆ (t.ask id topic payload).calls := List.subset_append_left _ _
  have find := Requester.find?_issue t.requester t.now id
  refine ⟨?_, fun k waits => ?_, fun m hm => ?_, fun e he => ?_, fun x hx => ?_,
    fun c hc causes fails => ?_⟩
  · exact nodup_map_concat h.ids new
  · by_cases same : k = id
    · exact List.mem_map.mpr ⟨_, List.mem_append_right _ (List.mem_singleton_self _), same.symm⟩
    · refine List.map_subset _ old (h.pending k fun gone => waits ?_)
      exact (find k).trans ((if_neg same).trans gone)
  · rcases List.mem_append.mp hm with earlier | now
    · exact (h.sent m earlier).mono old
    · exact ⟨_, List.mem_append_right _ (List.mem_singleton_self _),
        .inl (List.mem_singleton.mp now)⟩
  · exact List.mem_append_left _ (h.arrived e he)
  · exact List.map_subset _ old (h.resolved x hx)
  · rcases List.mem_append.mp hc with earlier | now
    · have ne : c.id ≠ id := fun eq => new (eq ▸ List.mem_map_of_mem earlier)
      exact (h.fate c earlier causes fails).frame ((find c.id).trans (if_neg ne)) rfl rfl
        (fun _ => Iff.rfl) rfl
    · -- Nothing on the bus has the number of a new request.
      obtain rfl := List.mem_singleton.mp now
      refine .waits ((find id).trans (if_pos rfl)) (fun came => new (h.mem_calls_of_came came))
        (Nat.le_trans (Nat.le_add_right _ _) (Nat.le_add_right _ lag)) ?_
      refine List.eq_nil_iff_forall_not_mem.mpr fun result mem => new ?_
      exact h.resolved _ (mem_resultsOf.mp mem)

theorem Overseen.serve (h : Overseen r lag t) {m : Message} (sent : m ∈ t.sent) :
    Overseen r lag (t.serve r m) := by
  refine { h with
    sent := fun m' hm' => ?_
    arrived := fun e he => ?_
    fate := fun c hc causes fails => ?_ }
  · exact (List.mem_append.mp hm').elim (h.sent m') (onBus_of_published (h.sent m sent) _ m')
  · exact List.mem_append_left _ (h.arrived e he)
  · exact (h.fate c hc causes fails).frame rfl rfl rfl (fun _ => Iff.rfl) rfl

/-- What was published may arrive. -/
theorem Overseen.arrived_concat (h : Overseen r lag t) {data : Bytes}
    (sent : (t.requester.inbox, data) ∈ t.sent) :
    ∀ e ∈ t.arrivals ++ [(t.now, data)], (t.requester.inbox, e.2) ∈ t.sent := by
  intro e he
  rcases List.mem_append.mp he with old | new
  · exact h.arrived e old
  · rw [List.mem_singleton.mp new]
    exact sent

theorem Overseen.deliver (h : Overseen r lag t) {data : Bytes}
    (sent : (t.requester.inbox, data) ∈ t.sent) : Overseen r lag (t.deliver data) := by
  obtain ⟨d, hd, request | ⟨s, hs, segment⟩⟩ := h.sent _ sent
  · obtain rfl := (Prod.mk.inj request).2
    rw [deliver_request]
    refine { h with
      arrived := h.arrived_concat sent
      fate := fun c hc causes fails => ?_ }
    refine (h.fate c hc causes fails).frame rfl rfl rfl (fun instant => ?_) rfl
    simp [Traffic.CameAt, Reply.encode_ne_request]
  · obtain rfl := (Prod.mk.inj segment).2
    rw [deliver_segment]
    refine h.settle (Requester.concerns_receive t.requester s) rfl rfl rfl rfl
      (h.arrived_concat sent) (fun u ne instant => ?_) fun c hc same causes fails => ?_
    · rw [cameAt_took]
      exact or_iff_left fun new => ne (congrArg Reply.id new.2)
    · -- The only segment of the answer to this request is the one that tells of the failure.
      obtain rfl := h.eq_of_id_eq hc hd (same.trans (id_of_mem_answer hs))
      rw [Responder.answer, fails, List.mem_singleton] at hs
      rw [hs]
      exact (h.fate c hc causes fails).took_failure

theorem Overseen.lapse (h : Overseen r lag t) {id : Int64} {p : Pending}
    (waits : t.requester.find? id = some p) (due : p.deadline ≤ t.now) :
    Overseen r lag (t.lapse id) := by
  have concerns : t.requester.Concerns id (t.requester.lapse id) :=
    Requester.concerns_remove (by simp [waits]) fun x hx => by rw [List.mem_singleton.mp hx]
  refine h.settle concerns rfl rfl rfl rfl h.arrived (fun _ _ _ => Iff.rfl)
    fun c hc same causes fails => ?_
  subst same
  exact (h.fate c hc causes fails).lapse waits due

theorem Overseen.pass (h : Overseen r lag t) {ms : Nat}
    (prompt : ∀ id p, t.requester.find? id = some p → t.now + ms ≤ p.deadline + lag) :
    Overseen r lag (t.pass ms) := by
  refine { h with fate := fun c hc causes fails => ?_ }
  cases h.fate c hc causes fails with
  | waits pending untold _ results => exact .waits pending untold (prompt _ _ pending) results
  | told gone results => exact .told gone results
  | timedOut gone results late overdue =>
    exact .timedOut gone results late (Nat.le_trans overdue (Nat.le_add_right _ ms))

/-- Whatever happens, every request that fails has its fate. -/
theorem overseen_of_reachable (reached : Traffic.Reachable r lag t) : Overseen r lag t := by
  induction reached with
  | start inbox timeout segmentSize now => exact overseen_start inbox timeout segmentSize now
  | step _ next h =>
    cases next with
    | ask id topic payload new => exact h.ask topic payload new
    | serve message sent => exact h.serve sent
    | deliver data sent => exact h.deliver sent
    | lapse id p waits due => exact h.lapse waits due
    | pass ms prompt => exact h.pass prompt

end

/-! ## Failures with and without a text -/

/-- Only a failure whose causes say nothing has no text. -/
theorem chain_eq_empty {causes : List String} :
    Fault.chain causes = "" ↔ causes = [] ∨ causes = [""] := by
  rw [Fault.chain]
  match causes with
  | [] => simp
  | [text] => simp
  | outer :: inner :: rest => simp [String.intercalate_cons_cons]

/-- A failure is told with its text; one without a text is told as an empty answer. -/
theorem outcome_failure (id : Int64) (text : String) :
    Requester.outcome (.failure id text)
      = if text = "" then .ok (.failure id "") else .error (.remote text) := by
  by_cases empty : text = ""
  · simp [Requester.outcome, Reply.isError, Reply.failure, empty]
  · simp [Requester.outcome, Reply.isError, Reply.failure, empty]

/-- **A failure is told with its text, unless it has none.** Whatever else is on the bus, in whatever
order messages arrive and timers go off: a service that fails on a request makes its responder publish
one segment; if that segment comes before the deadline, the request is resolved once, with the text of
the failure, and otherwise it can only be timed out. The exception is a failure whose causes say
nothing, which is told as an empty answer. -/
theorem failure_surfaces_unless_textless (r : Responder) {lag : Nat} {t : Traffic}
    (reached : Traffic.Reachable r lag t) {c : Call} (hc : c ∈ t.calls) {causes : List String}
    (fails : r.service c.topic c.payload = .error causes) :
    (∀ l, Station.react (.service r)
        (c.topic, (⟨c.id, t.requester.inbox, c.payload⟩ : Request).encode) l =
      (l, .ok [(t.requester.inbox, (Reply.failure c.id (Fault.chain causes)).encode)])) ∧
    ((∃ instant < c.deadline, t.CameAt instant (.failure c.id (Fault.chain causes))) →
      t.resultsOf c.id = [if Fault.chain causes = "" then .ok (.failure c.id "")
        else .error (.remote (Fault.chain causes))]) ∧
    (∀ result ∈ t.resultsOf c.id, result = .error (.remote (Fault.chain causes)) ∨
      result = .error (.timeout c.id t.requester.timeout) ∨
      result = .ok (.failure c.id "") ∧ Fault.chain causes = "") ∧
    (Fault.chain causes = "" ↔ causes = [] ∨ causes = [""]) := by
  have fate := (overseen_of_reachable reached).fate c hc causes fails
  rw [← outcome_failure]
  refine ⟨fun l => ?_, fun ⟨instant, inTime, came⟩ => ?_, fun result mem => ?_, chain_eq_empty⟩
  · rw [react_request, Responder.answer, fails]
    rfl
  · cases fate with
    | waits _ untold => exact absurd (Traffic.came_iff.mpr ⟨instant, came⟩) untold
    | told _ results => exact results
    | timedOut _ _ late => exact absurd came (late instant inTime)
  · cases fate with
    | waits _ _ _ results =>
      rw [results] at mem
      cases mem
    | told _ results =>
      rw [results, outcome_failure, List.mem_singleton] at mem
      split at mem
      · next empty => exact .inr (.inr ⟨mem, empty⟩)
      · exact .inl mem
    | timedOut _ results =>
      rw [results, List.mem_singleton] at mem
      exact .inr (.inl mem)

namespace Sample

/-- A service that always fails. -/
def failing (causes : List String) : Responder := ⟨2, fun _ _ => .error causes⟩

/-- A request that reaches it. -/
def unserved : Traffic := (Traffic.start "in" 100 2 0).ask 7 "svc" [1]

/-- What the service makes of it reaches the inbox at once. -/
def failed (causes : List String) : Traffic :=
  (unserved.serve (failing causes) ("svc", (⟨7, "in", [1]⟩ : Request).encode)).deliver
    (Reply.failure 7 (Fault.chain causes)).encode

theorem reachable_failed (causes : List String) :
    Traffic.Reachable (failing causes) 0 (failed causes) := by
  have start : Traffic.Reachable (failing causes) 0 (Traffic.start "in" 100 2 0) := .start ..
  have served := (start.step (.ask 7 "svc" [1] (by decide))).step (.serve _ (.head _))
  refine served.step (.deliver _ (List.mem_append_right _ ?_))
  rw [react_request]
  exact .head _

theorem failed_eq (causes : List String) :
    (failed causes).calls = [⟨7, "svc", [1], 100⟩] ∧
      (failed causes).CameAt 0 (.failure 7 (Fault.chain causes)) ∧
      (failed causes).resolved = [(7, Requester.outcome (.failure 7 (Fault.chain causes)))] := by
  rw [failed, deliver_segment]
  exact ⟨rfl, .head _, rfl⟩

end Sample

/-- A failure with two causes. -/
theorem failure_surfaces_unless_textless_sample :
    Traffic.Reachable (Sample.failing ["open book", "no book"]) 0
        (Sample.failed ["open book", "no book"]) ∧
      (Sample.failed ["open book", "no book"]).resultsOf 7
        = [.error (.remote "open book: no book")] := by
  have reached := Sample.reachable_failed ["open book", "no book"]
  obtain ⟨calls, came, -⟩ := Sample.failed_eq ["open book", "no book"]
  have hc : ⟨7, "svc", [1], 100⟩ ∈ (Sample.failed ["open book", "no book"]).calls := calls ▸ .head _
  obtain ⟨-, told, -, -⟩ := failure_surfaces_unless_textless _ reached hc rfl
  exact ⟨reached, told ⟨0, by decide, came⟩⟩

/-- A failure without a text comes in time and is told as an empty answer. -/
theorem textless_failure_is_answer :
    Traffic.Reachable (Sample.failing [""]) 0 (Sample.failed [""]) ∧
      (Sample.failing [""]).service "svc" [1] = .error [""] ∧
      (⟨7, "svc", [1], 100⟩ : Call) ∈ (Sample.failed [""]).calls ∧
      (Sample.failed [""]).CameAt 0 (.failure 7 (Fault.chain [""])) ∧
      (7, .ok ⟨7, 1, 1, [], ""⟩) ∈ (Sample.failed [""]).resolved ∧
      ∀ text, (7, .error (.remote text)) ∉ (Sample.failed [""]).resolved := by
  obtain ⟨calls, came, resolved⟩ := Sample.failed_eq [""]
  refine ⟨Sample.reachable_failed [""], rfl, calls ▸ .head _, came, ?_, fun text => ?_⟩
  · rw [resolved]
    exact .head _
  · simp [resolved, Requester.outcome, Reply.isError, Reply.failure, Fault.chain]

end MarketStream.Bus
