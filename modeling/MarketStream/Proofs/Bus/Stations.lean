import Mathlib.Data.List.Induction
import MarketStream.Proofs.Bus.Outstanding
import MarketStream.Bus.Station

/-!
# A station has callers

Whatever is done at a station, callers of its requester could have done: there are steps that lead
to the same table, with the same outcome of every request. So what holds of all that a requester and
its callers can come to holds of a station.

* `Station.Operation`, `Station.perform` — what is done at a station;
* `Station.keeps_publish` — publishing touches the table only through the inbox;
* `Clientele.Depicts` — callers of the requester of a station;
* `Clientele.exists_depicts` — there are such callers, whatever is done;
* `Clientele.mem_keys_station`, `Clientele.now_le_deadline_station` — what this means for the table of
  the station.
-/

namespace MarketStream.Bus

/-! ## Publishing -/

namespace Station

variable {P : Ledger → Prop} {w : Ledger × Exchange Seat}

theorem keeps_publishAll
    {publish : Ledger × Exchange Seat → Message → (Ledger × Exchange Seat) × Except Fault Unit}
    (one : ∀ w message, P w.1 → P (publish w message).1.1) (messages : List Message) (h : P w.1) :
    P (Exchange.publishAll publish w messages).1.1 := by
  induction messages generalizing w with
  | nil => exact h
  | cons first rest ih =>
    have sent := one w first h
    rw [Exchange.publishAll]
    split
    · next published =>
      rw [published] at sent
      exact ih sent
    · next refused =>
      rw [refused] at sent
      exact sent

/-- What bytes in the inbox keep, all that a message on the exchange causes keeps. -/
theorem keeps_publish (kept : ∀ l message, P l → P (react .inbox message l).1) (hops : Nat)
    (message : Message) (h : P w.1) : P (Exchange.publish react hops w message).1.1 := by
  induction hops generalizing w message with
  | zero => exact h
  | succ hops ih =>
    obtain ⟨l, x⟩ := w
    rw [Exchange.publish]
    split
    · exact h
    · -- One subscriber after another is handed the message.
      refine List.foldlRecOn (motive := fun w : Ledger × Exchange Seat => P w.1) _ _ h ?_
      intro w h seat _
      have reacted : P (react seat message w.1).1 := by
        cases seat with
        | inbox => exact kept _ _ h
        | service r =>
          rw [react]
          split <;> exact h
      split
      · next failed =>
        rw [failed] at reacted
        exact reacted
      · next l messages published =>
        rw [published] at reacted
        have all : P (Exchange.publishAll (Exchange.publish react hops) (l, w.2) messages).1.1 :=
          keeps_publishAll (fun w message h => ih message h) messages reacted
        split
        · next eq =>
          rw [eq] at all
          exact all
        · next eq =>
          rw [eq] at all
          exact all

/-- A message that is refused reaches no one. -/
theorem publish_of_refused {hops : Nat} {message : Message} {w' : Ledger × Exchange Seat} {e : Fault}
    (h : Exchange.publish react (hops + 1) w message = (w', .error e)) : w' = w := by
  obtain ⟨l, x⟩ := w
  rw [Exchange.publish] at h
  split at h
  · exact (Prod.mk.inj h).1.symm
  · cases (Prod.mk.inj h).2

/-- What can be done at a station. -/
inductive Operation where
  /-- A request is made. -/
  | request (id : Int64) (topic : String) (payload : Bytes)
  /-- An envelope is handed to the requester. -/
  | handle (data : Bytes)
  /-- A topic is served. -/
  | serve (topic : String) (service : Service)
  /-- Time passes. -/
  | advance (ms : Nat)
  /-- The exchange is limited. -/
  | limit (budget : Option Nat)
  /-- The station is closed. -/
  | close

/-- Where an operation leads. -/
def perform (st : Station) : Operation → Station
  | .request id topic payload => st.request id topic payload
  | .handle data => (st.handle data).1
  | .serve topic service =>
    match st.serve topic service with
    | .ok st => st
    | .error _ => st
  | .advance ms => st.advance ms
  | .limit budget => st.limit budget
  | .close => st.close

theorem perform_handle (st : Station) (data : Bytes) :
    st.perform (.handle data) =
      { st with ledger := (react .inbox (st.ledger.requester.inbox, data) st.ledger).1 } := by
  rw [perform, handle, react]
  cases st.ledger.requester.handle data <;> rfl

/-- Serving a topic touches neither the table nor the clock. -/
theorem perform_serve (st : Station) (topic : String) (service : Service) :
    (st.perform (.serve topic service)).ledger = st.ledger ∧
      (st.perform (.serve topic service)).now = st.now := by
  rw [perform, serve]
  cases st.exchange.subscribe topic (.service ⟨st.ledger.requester.segmentSize, service⟩) <;>
    exact ⟨rfl, rfl⟩

/-- The number of the request that an operation makes. -/
def Operation.id? : Operation → Option Int64
  | .request id _ _ => some id
  | _ => none

end Station

/-! ## Callers of a station -/

namespace Caller

/-- What has come of the request, even if the caller has not looked. -/
def outcome? (c : Caller) : Option (Except Fault Reply) := c.stage.result?.or c.letter

theorem isOpen_eq (c : Caller) : c.isOpen = c.outcome?.isNone := by
  cases letter : c.letter <;> cases result : c.stage.result? <;>
    simp [isOpen, outcome?, letter, result]

theorem outcome?_hear (c : Caller) (news : List Resolution) :
    (c.hear news).outcome? = c.outcome?.or (news.lookup c.id) := by
  rw [hear, outcome?, outcome?, Option.or_assoc]

end Caller

namespace Clientele

/-- Callers of the requester of a station: the table is the same, callers wait for what is in it, and
the same has come of the other requests. -/
structure Depicts (s : Clientele) (l : Station.Ledger) (now : Nat) : Prop where
  /-- Callers can come to this. -/
  reached : Reachable 0 s
  /-- The table is the same. -/
  requester : s.requester = l.requester
  /-- The instant is the same. -/
  now : s.now = now
  /-- Callers of whose requests nothing has come wait up to their deadlines. -/
  waiting : ∀ c ∈ s.callers, c.outcome? = none →
    ∃ p, s.requester.find? c.id = some p ∧ c.stage = .waiting p.deadline
  /-- The same has come of requests. -/
  outcomes : ∀ id result, (id, result) ∈ l.resolved ↔
    ∃ c ∈ s.callers, c.id = id ∧ c.outcome? = some result

section

variable {s : Clientele} {l : Station.Ledger} {now : Nat} {id : Int64}

/-- A new station has no callers. -/
theorem depicts_start (inbox : String) (timeout segmentSize : Nat) :
    (start inbox timeout segmentSize 0).Depicts ⟨.idle inbox timeout segmentSize, []⟩ 0 where
  reached := .start ..
  requester := rfl
  now := rfl
  waiting _ none := by cases none
  outcomes _ _ := by simp [start]

/-- The number in the table is that of a caller of whose request nothing has come. -/
theorem Depicts.exists_caller (h : s.Depicts l now) (pending : id ∈ l.requester.keys) :
    ∃ c ∈ s.callers, c.id = id ∧ c.outcome? = none := by
  rw [← h.requester, (exact_of_reachable h.reached).keys] at pending
  obtain ⟨c, hc, eq⟩ := List.mem_map.mp pending
  obtain ⟨mem, isOpen⟩ := List.mem_filter.mp hc
  rw [Caller.isOpen_eq, Option.isNone_iff_eq_none] at isOpen
  exact ⟨c, mem, eq, isOpen⟩

/-- What is resolved is in the table, and resolved once. -/
structure Resolves (r : Requester) (outcome : Requester × List Resolution) : Prop where
  /-- It is in the table. -/
  pending : ∀ x ∈ outcome.2, x.1 ∈ r.keys
  /-- It is resolved once. -/
  once : ∀ x ∈ outcome.2, outcome.2.lookup x.1 = some x.2
  /-- The deadlines of all others stay. -/
  kept : ∀ id p, outcome.2.lookup id = none → r.find? id = some p →
    ∃ p', outcome.1.find? id = some p' ∧ p'.deadline = p.deadline

theorem resolves_remove {r : Requester} (pending : id ∈ r.keys) (result : Except Fault Reply) :
    Resolves r (r.remove id, [(id, result)]) where
  pending x hx := by
    rw [List.mem_singleton.mp hx]
    exact pending
  once x hx := by
    rw [List.mem_singleton.mp hx, lookup_cons_ite, if_pos rfl]
  kept k p untold found := by
    have other : k ≠ id := by
      rintro rfl
      rw [lookup_cons_ite, if_pos rfl] at untold
      cases untold
    exact ⟨p, (Requester.find?_remove r id k).trans ((if_neg other).trans found), rfl⟩

theorem resolves_nothing {r r' : Requester}
    (kept : ∀ id p, r.find? id = some p → ∃ p', r'.find? id = some p' ∧ p'.deadline = p.deadline) :
    Resolves r (r', []) where
  pending _ none := by cases none
  once _ none := by cases none
  kept id p _ found := kept id p found

theorem resolves_receive {r : Requester} (awaited : r.Awaited) (m : Reply) :
    Resolves r (r.receive m) := by
  by_cases pending : m.id ∈ r.keys
  · rcases awaited.receive_cases m with ⟨gone, -⟩ | ⟨a, -, eq⟩ | ⟨result, eq⟩
    · exact absurd pending gone
    · refine eq ▸ resolves_nothing fun k p found => ?_
      refine ⟨_, (Requester.find?_update r m.id a k).trans (congrArg _ found), ?_⟩
      dsimp only
      split <;> rfl
    · exact eq ▸ resolves_remove pending result
  · rw [Requester.receive_of_none (not_not.mp fun found => pending (Requester.mem_keys_iff.mpr found))]
    exact resolves_nothing fun _ p found => ⟨p, found, rfl⟩

theorem resolves_close {r : Requester} (once : r.keys.Nodup) : Resolves r r.close where
  pending x hx := by
    obtain ⟨e, he, rfl⟩ := List.mem_map.mp hx
    exact List.mem_map_of_mem he
  once x hx := by
    obtain ⟨e, he, rfl⟩ := List.mem_map.mp hx
    rw [Requester.lookup_close, Requester.find?, lookup_eq_some_of_mem once he]
    rfl
  kept k p untold found := by
    rw [Requester.lookup_close, found] at untold
    cases untold

/-- What the table resolves comes of the requests of callers. -/
theorem Depicts.resolve (h : s.Depicts l now) {outcome : Requester × List Resolution}
    (resolves : Resolves l.requester outcome) {f : Caller → Caller}
    (reached : Reachable 0 { s with requester := outcome.1, callers := s.callers.map f })
    (same : ∀ c ∈ s.callers, (f c).id = c.id)
    (comes : ∀ c ∈ s.callers, (f c).outcome? = c.outcome?.or (outcome.2.lookup c.id))
    (stays : ∀ c ∈ s.callers, (f c).outcome? = none → (f c).stage = c.stage) :
    Depicts { s with requester := outcome.1, callers := s.callers.map f } (l.settle outcome) now where
  reached := reached
  requester := rfl
  now := h.now
  waiting d hd isOpen := by
    obtain ⟨c, hc, rfl⟩ := List.mem_map.mp hd
    have untold := isOpen
    rw [comes c hc, Option.or_eq_none_iff] at untold
    obtain ⟨p, found, stage⟩ := h.waiting c hc untold.1
    obtain ⟨p', found', deadline⟩ := resolves.kept c.id p untold.2 (h.requester ▸ found)
    rw [same c hc, stays c hc isOpen, stage]
    exact ⟨p', found', deadline ▸ rfl⟩
  outcomes id result := by
    show _ ∈ l.resolved ++ outcome.2 ↔ _
    rw [List.mem_append, h.outcomes]
    constructor
    · rintro (⟨c, hc, rfl, known⟩ | news)
      · refine ⟨f c, List.mem_map_of_mem hc, same c hc, ?_⟩
        rw [comes c hc, known, Option.some_or]
      · -- What is in the table is the request of someone of whose request nothing has come.
        obtain ⟨c, mem, same', untold⟩ := h.exists_caller (resolves.pending _ news)
        obtain rfl : c.id = id := same'
        refine ⟨f c, List.mem_map_of_mem mem, same c mem, ?_⟩
        rw [comes c mem, untold, Option.none_or]
        exact resolves.once _ news
    · rintro ⟨d, hd, rfl, known⟩
      obtain ⟨c, hc, rfl⟩ := List.mem_map.mp hd
      rw [comes c hc] at known
      rw [same c hc]
      cases before : c.outcome? with
      | some earlier =>
        rw [before, Option.some_or] at known
        exact .inl ⟨c, hc, rfl, before.trans known⟩
      | none =>
        rw [before, Option.none_or] at known
        exact .inr (mem_of_lookup known)

theorem Depicts.tell (h : s.Depicts l now) {outcome : Requester × List Resolution}
    (resolves : Resolves l.requester outcome) (next : Step 0 s (s.tell outcome)) :
    (s.tell outcome).Depicts (l.settle outcome) now :=
  h.resolve resolves (h.reached.step next) (fun _ _ => rfl) (fun c _ => c.outcome?_hear outcome.2)
    fun _ _ _ => rfl

/-- The same bytes reach the inbox. -/
theorem Depicts.deliver (h : s.Depicts l now) (message : Message) :
    (s.deliver message.2).Depicts (Station.react .inbox message l).1 now := by
  have next : Step 0 s (s.deliver message.2) := .deliver message.2
  rw [Station.react, Requester.handle]
  cases reads : Reply.decode? message.2 with
  | none => exact (deliver_of_unreadable reads).symm ▸ h
  | some m =>
    rw [deliver_of_reply reads, h.requester] at next ⊢
    exact h.tell (resolves_receive (h.requester ▸ (exact_of_reachable h.reached).awaited) m) next

theorem Depicts.close (h : s.Depicts l now) :
    s.close.Depicts (l.settle l.requester.close) now := by
  have next : Step 0 s s.close := .close
  rw [Clientele.close, h.requester] at next ⊢
  exact h.tell (resolves_close (h.requester ▸ (exact_of_reachable h.reached).nodup_keys)) next

/-! ## Time at a station -/

/-- A caller whose time is up takes its request out of the table, in two steps. -/
theorem leave_tire (s : Clientele) (id : Int64) (deadline : Nat) :
    (s.tire id deadline).leave id =
      { s with
        requester := s.requester.remove id
        callers := s.callers.map fun c =>
          if c.id = id then { c with stage := .gone (.error (.timeout id s.requester.timeout)) }
          else c } := by
  rw [leave, quit, tire, moveTo, List.map_map]
  simp only [Requester.lapse, mk.injEq, true_and, and_true]
  refine List.map_congr_left fun c _ => ?_
  by_cases same : c.id = id
  · simp only [Function.comp_apply, if_pos same, Caller.depart, lookup_cons_ite]
  · simp only [Function.comp_apply, if_neg same, Caller.depart, lookup_cons_ite]
    rfl

theorem Depicts.lapse (h : s.Depicts l now) {p : Pending} (found : l.requester.find? id = some p)
    (due : p.deadline ≤ now) :
    ∃ s' : Clientele, s'.Depicts (l.settle (l.requester.lapse id)) now ∧
      s'.callers.map Caller.id = s.callers.map Caller.id := by
  have pending : id ∈ l.requester.keys := Requester.mem_keys_iff.mpr (by simp [found])
  obtain ⟨c, hc, rfl, untold⟩ := h.exists_caller pending
  obtain ⟨q, found', stage⟩ := h.waiting c hc untold
  rw [h.requester, found] at found'
  obtain rfl := Option.some.inj found'
  have letter : c.letter = none := by
    rw [Caller.outcome?, Option.or_eq_none_iff] at untold
    exact untold.2
  have tired := h.reached.step (.tire c hc p.deadline stage letter (h.now ▸ due))
  have mem : ({ c with stage := .leaving p.deadline } : Caller) ∈ (s.tire c.id p.deadline).callers :=
    List.mem_map.mpr ⟨c, hc, if_pos rfl⟩
  have left := tired.step (.leave _ mem p.deadline rfl)
  rw [leave_tire, h.requester] at left
  refine ⟨_, h.resolve (resolves_remove pending _) left (fun d _ => ?_) (fun d hd => ?_)
    (fun d hd isOpen => ?_), ?_⟩
  · split <;> rfl
  · by_cases same : d.id = c.id
    · obtain rfl := (exact_of_reachable h.reached).eq_of_id_eq hd hc same
      rw [if_pos rfl, untold, lookup_cons_ite, if_pos rfl]
      rfl
    · rw [if_neg same, lookup_cons_ite, if_neg same]
      exact (Option.or_none).symm
  · split at isOpen
    · cases isOpen
    · next other => rw [if_neg other]
  · rw [List.map_map]
    refine List.map_congr_left fun d _ => ?_
    rw [Function.comp_apply]
    split <;> rfl

theorem settle_settle (l : Station.Ledger) (first second : Requester × List Resolution) :
    (l.settle first).settle second = l.settle (second.1, first.2 ++ second.2) := by
  rw [Station.Ledger.settle, Station.Ledger.settle, Station.Ledger.settle, List.append_assoc]

theorem Depicts.lapseAll (h : s.Depicts l now) {ids : List Int64} (once : ids.Nodup)
    (due : ∀ id ∈ ids, ∃ p, l.requester.find? id = some p ∧ p.deadline ≤ now) :
    ∃ s' : Clientele, s'.Depicts (l.settle (l.requester.lapseAll ids)) now ∧
      s'.callers.map Caller.id = s.callers.map Caller.id := by
  induction ids generalizing s l with
  | nil =>
    have same : l.settle (l.requester.lapseAll []) = l := by
      rw [Requester.lapseAll, Station.Ledger.settle, List.append_nil]
    exact ⟨s, same.symm ▸ h, rfl⟩
  | cons id rest ih =>
    obtain ⟨new, once⟩ := List.nodup_cons.mp once
    obtain ⟨p, found, up⟩ := due id List.mem_cons_self
    obtain ⟨s₁, h₁, same₁⟩ := h.lapse found up
    have due₁ : ∀ k ∈ rest, ∃ p, (l.settle (l.requester.lapse id)).requester.find? k = some p ∧
        p.deadline ≤ now := by
      intro k hk
      obtain ⟨q, found', up'⟩ := due k (List.mem_cons_of_mem id hk)
      have other : k ≠ id := fun eq => new (eq ▸ hk)
      exact ⟨q, (Requester.find?_remove _ id k).trans ((if_neg other).trans found'), up'⟩
    obtain ⟨s₂, h₂, same₂⟩ := ih h₁ once due₁
    rw [settle_settle] at h₂
    exact ⟨s₂, h₂, same₂.trans same₁⟩

/-- The requests end whose time is up. -/
theorem Depicts.expire (h : s.Depicts l now) :
    ∃ s' : Clientele, s'.Depicts (l.settle (l.requester.expire now)) now ∧
      s'.callers.map Caller.id = s.callers.map Caller.id := by
  have once : l.requester.keys.Nodup := h.requester ▸ (exact_of_reachable h.reached).nodup_keys
  rw [Requester.expire_eq_lapseAll once]
  refine h.lapseAll (once.sublist (List.filter_sublist.map _)) fun id mem => ?_
  obtain ⟨e, he, rfl⟩ := List.mem_map.mp mem
  obtain ⟨pending, due⟩ := List.mem_filter.mp he
  exact ⟨e.2, lookup_eq_some_of_mem once pending, of_decide_eq_true due⟩

/-- The deadlines of what is left in the table are ahead. -/
theorem lt_deadline_of_expire {r : Requester} {p : Pending}
    (found : (r.expire now).1.find? id = some p) : now < p.deadline := by
  have left := (List.mem_filter.mp (mem_of_lookup found)).2
  simpa using left

/-- Time passes if all deadlines are ahead. -/
theorem Depicts.pass (h : s.Depicts l now)
    (ahead : ∀ id p, l.requester.find? id = some p → now < p.deadline) :
    (s.pass 1).Depicts l (now + 1) := by
  refine ⟨h.reached.step (.pass 1 fun c hc isOpen deadline waits => ?_), h.requester, ?_,
    h.waiting, h.outcomes⟩
  · rw [Caller.isOpen_eq, Option.isNone_iff_eq_none] at isOpen
    obtain ⟨p, found, stage⟩ := h.waiting c hc isOpen
    rw [stage] at waits
    obtain rfl := Option.some.inj waits
    rw [h.now]
    exact ahead c.id p (h.requester ▸ found)
  · show s.now + 1 = now + 1
    rw [h.now]

theorem Depicts.congr {l' : Station.Ledger} (h : s.Depicts l now)
    (requester : l'.requester = l.requester) (resolved : ∀ x, x ∈ l'.resolved ↔ x ∈ l.resolved) :
    s.Depicts l' now where
  reached := h.reached
  requester := h.requester.trans requester.symm
  now := h.now
  waiting := h.waiting
  outcomes id result := (resolved _).trans (h.outcomes id result)

/-- What ends up to an instant ends up to a later one. -/
theorem expire_expire (r : Requester) {now later : Nat} (le : now ≤ later) :
    ((r.expire now).1.expire later).1 = (r.expire later).1 ∧
      ∀ x, x ∈ (r.expire now).2 ++ ((r.expire now).1.expire later).2 ↔ x ∈ (r.expire later).2 := by
  constructor
  · simp only [Requester.expire, List.filter_filter]
    congr 1
    refine List.filter_congr fun e _ => ?_
    by_cases due : e.2.deadline ≤ now
    · simp [due, Nat.le_trans due le]
    · simp [due]
  · intro x
    simp only [Requester.expire, List.mem_append, List.mem_map, List.mem_filter, Bool.not_eq_true',
      decide_eq_true_eq, decide_eq_false_iff_not]
    constructor
    · rintro (⟨e, ⟨mem, due⟩, rfl⟩ | ⟨e, ⟨⟨mem, -⟩, due⟩, rfl⟩)
      · exact ⟨e, ⟨mem, Nat.le_trans due le⟩, rfl⟩
      · exact ⟨e, ⟨mem, due⟩, rfl⟩
    · rintro ⟨e, ⟨mem, due⟩, rfl⟩
      by_cases early : e.2.deadline ≤ now
      · exact .inl ⟨e, ⟨mem, early⟩, rfl⟩
      · exact .inr ⟨e, ⟨⟨mem, early⟩, due⟩, rfl⟩

/-- Time passes, and requests end at their deadlines. -/
theorem Depicts.advance (h : s.Depicts l now) (ms : Nat) :
    ∃ s' : Clientele, s'.Depicts (l.settle (l.requester.expire (now + ms))) (now + ms) ∧
      s'.callers.map Caller.id = s.callers.map Caller.id := by
  induction ms with
  | zero => exact h.expire
  | succ ms ih =>
    obtain ⟨s₁, h₁, same₁⟩ := ih
    obtain ⟨s₂, h₂, same₂⟩ := (h₁.pass fun _ _ => lt_deadline_of_expire).expire
    obtain ⟨table, news⟩ := expire_expire l.requester (Nat.le_succ (now + ms))
    rw [settle_settle] at h₂
    refine ⟨s₂, h₂.congr table.symm fun x => ?_, same₂.trans same₁⟩
    show x ∈ l.resolved ++ _ ↔ x ∈ l.resolved ++ _
    rw [List.mem_append, List.mem_append]
    exact or_congr_right (news x).symm

/-! ## Requests at a station -/

/-- A request is entered in the table. -/
def entered (l : Station.Ledger) (now : Nat) (id : Int64) : Station.Ledger :=
  { l with requester := l.requester.issue now id }

/-- A new caller's request is published, in two steps. -/
theorem send_call (new : id ∉ s.callers.map Caller.id) :
    (s.call id).send id =
      { s with
        requester := s.requester.issue s.now id
        callers := s.callers ++ [⟨id, .waiting (s.now + s.requester.timeout), none⟩] } := by
  rw [send, moveTo, call, mk.injEq]
  refine ⟨rfl, ?_, rfl⟩
  rw [List.map_append]
  refine congrArg₂ _ ?_ (congrArg (fun c => [c]) (if_pos rfl))
  refine (List.map_congr_left fun c hc => ?_).trans (List.map_id _)
  exact if_neg fun same : c.id = id => new (same ▸ List.mem_map_of_mem hc)

/-- A new caller's request is refused, in two steps. -/
theorem refuse_call (new : id ∉ s.callers.map Caller.id) (e : Fault) :
    (s.call id).refuse id e =
      { s with
        requester := (s.requester.issue s.now id).remove id
        callers := s.callers ++ [⟨id, .gone (.error e), none⟩] } := by
  rw [refuse, quit, call, Requester.refuse, mk.injEq]
  refine ⟨rfl, ?_, rfl⟩
  rw [List.map_append]
  refine congrArg₂ _ ?_ ?_
  · refine (List.map_congr_left fun c hc => ?_).trans (List.map_id _)
    have other : c.id ≠ id := fun same => new (same ▸ List.mem_map_of_mem hc)
    rw [Caller.depart, lookup_cons_ite, if_neg other]
    rfl
  · rw [List.map_singleton, Caller.depart, lookup_cons_ite, if_pos rfl]

/-- One more caller joins, with a request of its own. -/
theorem Depicts.join (h : s.Depicts l now) {r : Requester} {c : Caller}
    (new : c.id ∉ s.callers.map Caller.id)
    (reached : Reachable 0 { s with requester := r, callers := s.callers ++ [c] })
    (others : ∀ k, k ≠ c.id → r.find? k = l.requester.find? k)
    (own : c.outcome? = none → ∃ p, r.find? c.id = some p ∧ c.stage = .waiting p.deadline) :
    Depicts { s with requester := r, callers := s.callers ++ [c] }
      (l.settle (r, c.outcome?.toList.map fun result => (c.id, result))) now where
  reached := reached
  requester := rfl
  now := h.now
  waiting d hd untold := by
    rcases List.mem_append.mp hd with old | fresh
    · obtain ⟨p, found, stage⟩ := h.waiting d old untold
      have other : d.id ≠ c.id := fun same => new (same ▸ List.mem_map_of_mem old)
      exact ⟨p, (others d.id other).trans (h.requester ▸ found), stage⟩
    · obtain rfl := List.mem_singleton.mp fresh
      exact own untold
  outcomes k result := by
    have last : (k, result) ∈ (c.outcome?.toList.map fun result => (c.id, result)) ↔
        c.id = k ∧ c.outcome? = some result := by
      simp [and_comm]
    show _ ∈ l.resolved ++ _ ↔ ∃ d ∈ s.callers ++ [c], _
    rw [List.mem_append, h.outcomes k result, last]
    simp only [List.mem_append, List.mem_singleton, or_and_right, exists_or, exists_eq_left]

/-- A new caller's request is published. -/
theorem Depicts.call (h : s.Depicts l now) (new : id ∉ s.callers.map Caller.id) :
    ((s.call id).send id).Depicts (entered l now id) now := by
  obtain rfl := h.now
  have reached := (h.reached.step (.call id new)).step
    (.send ⟨id, .sending, none⟩ (List.mem_append_right _ (List.mem_singleton_self _)) rfl)
  have find := Requester.find?_issue l.requester s.now id
  have entry : entered l s.now id = l.settle (l.requester.issue s.now id, []) := by
    rw [entered, Station.Ledger.settle, List.append_nil]
  rw [send_call new, h.requester] at reached ⊢
  rw [entry]
  refine h.join new reached (fun k other => (find k).trans (if_neg other)) fun _ => ?_
  exact ⟨_, (find id).trans (if_pos rfl), rfl⟩

/-- A new caller's request is refused. -/
theorem Depicts.refuse (h : s.Depicts l now) (new : id ∉ s.callers.map Caller.id) (e : Fault) :
    ((s.call id).refuse id e).Depicts
      ((entered l now id).settle ((entered l now id).requester.refuse id e)) now := by
  obtain rfl := h.now
  have reached := (h.reached.step (.call id new)).step
    (.refuse ⟨id, .sending, none⟩ (List.mem_append_right _ (List.mem_singleton_self _)) rfl e)
  rw [refuse_call new, h.requester] at reached ⊢
  refine h.join new reached (fun k other => ?_) fun none => by cases none
  rw [Requester.find?_remove, if_neg other, Requester.find?_issue, if_neg other]

/-! ## Operations -/

/-- What bytes in the inbox do, callers could have seen. -/
theorem exists_depicts_react (ids : List Int64) (l : Station.Ledger) (message : Message)
    (h : ∃ s : Clientele, s.Depicts l now ∧ s.callers.map Caller.id = ids) :
    ∃ s : Clientele, s.Depicts (Station.react .inbox message l).1 now ∧
      s.callers.map Caller.id = ids := by
  obtain ⟨s, depicts, same⟩ := h
  refine ⟨s.deliver message.2, depicts.deliver message, ?_⟩
  rw [← same, deliver]
  split
  · exact List.map_map.trans (List.map_congr_left fun _ _ => rfl)
  · rfl

/-- A request at a station is that of a new caller. -/
theorem Depicts.request {st : Station} (h : s.Depicts st.ledger st.now)
    (new : id ∉ s.callers.map Caller.id) (topic : String) (payload : Bytes) :
    ∃ s' : Clientele, s'.Depicts (st.request id topic payload).ledger
        (st.request id topic payload).now ∧
      s'.callers.map Caller.id = s.callers.map Caller.id ++ [id] := by
  let message : Message := (topic, (st.ledger.requester.envelope id payload).encode)
  rcases sent : Exchange.publish Station.react Exchange.maxHops
    (entered st.ledger st.now id, st.exchange) message with ⟨⟨l, x⟩, result⟩
  have published : Station.publish
      { st with ledger := { st.ledger with requester := st.ledger.requester.issue st.now id } } message
        = ({ st with ledger := l, exchange := x }, result) := by
    rw [entered] at sent
    simp only [Station.publish, sent]
  cases result with
  | error e =>
    have unheard := Station.publish_of_refused sent
    obtain rfl : l = entered st.ledger st.now id := congrArg Prod.fst unheard
    simp only [Station.request, published, message]
    refine ⟨_, h.refuse new e, ?_⟩
    rw [refuse_call new, List.map_append]
    rfl
  | ok _ =>
    have called : ((s.call id).send id).callers.map Caller.id = s.callers.map Caller.id ++ [id] := by
      rw [send_call new, List.map_append]
      rfl
    obtain ⟨s₁, h₁, same₁⟩ := Station.keeps_publish
      (exists_depicts_react (s.callers.map Caller.id ++ [id])) Exchange.maxHops message
      (w := (entered st.ledger st.now id, st.exchange)) ⟨_, h.call new, called⟩
    rw [sent] at h₁
    obtain ⟨s₂, h₂, same₂⟩ := h₁.expire
    simp only [Station.request, published, message]
    exact ⟨s₂, h₂, same₂.trans same₁⟩

/-- Callers could have done what is done at a station. -/
theorem Depicts.perform {st : Station} (h : s.Depicts st.ledger st.now) (op : Station.Operation)
    (new : ∀ id, op.id? = some id → id ∉ s.callers.map Caller.id) :
    ∃ s' : Clientele, s'.Depicts (st.perform op).ledger (st.perform op).now ∧
      s'.callers.map Caller.id = s.callers.map Caller.id ++ op.id?.toList := by
  have unchanged {s' : Clientele} (same : s'.callers.map Caller.id = s.callers.map Caller.id) :
      s'.callers.map Caller.id = s.callers.map Caller.id ++ [] := by
    rw [same, List.append_nil]
  cases op with
  | request id topic payload => exact h.request (new id rfl) topic payload
  | handle data =>
    obtain ⟨s', depicts, same⟩ :=
      exists_depicts_react _ st.ledger (st.ledger.requester.inbox, data) ⟨s, h, rfl⟩
    rw [Station.perform_handle]
    exact ⟨s', depicts, unchanged same⟩
  | serve topic service =>
    obtain ⟨ledger, now⟩ := st.perform_serve topic service
    rw [ledger, now]
    exact ⟨s, h, unchanged rfl⟩
  | advance ms =>
    obtain ⟨s', depicts, same⟩ := h.advance ms
    exact ⟨s', depicts, unchanged same⟩
  | limit budget => exact ⟨s, h, unchanged rfl⟩
  | close =>
    refine ⟨s.close, h.close, unchanged ?_⟩
    exact List.map_map.trans (List.map_congr_left fun _ _ => rfl)

end

variable {exchange : Exchange Station.Seat} {inbox : String} {timeout segmentSize : Nat}
  {st : Station}

/-- **A station has callers.** Whatever is done at a new station with requests of distinct numbers, a
requester and its callers can come to the same: the same table, one caller for each request, and the
same outcome of every request. -/
theorem exists_depicts
    (new : Station.establish exchange (.idle inbox timeout segmentSize) = .ok st)
    (ops : List Station.Operation) (distinct : (ops.filterMap Station.Operation.id?).Nodup) :
    ∃ s : Clientele, s.Depicts (ops.foldl Station.perform st).ledger
        (ops.foldl Station.perform st).now ∧
      s.callers.map Caller.id = ops.filterMap Station.Operation.id? := by
  induction ops using List.reverseRecOn with
  | nil =>
    rw [Station.establish] at new
    cases subscribed : exchange.subscribe (Requester.idle inbox timeout segmentSize).inbox .inbox with
    | error e =>
      rw [subscribed] at new
      cases new
    | ok x =>
      rw [subscribed] at new
      obtain rfl := Except.ok.inj new
      exact ⟨_, depicts_start inbox timeout segmentSize, rfl⟩
  | append_singleton before op ih =>
    rw [List.filterMap_append] at distinct ⊢
    obtain ⟨s, depicts, same⟩ := ih distinct.of_append_left
    have fresh : ∀ id, op.id? = some id → id ∉ s.callers.map Caller.id := fun id eq mem => by
      rw [same] at mem
      exact List.disjoint_of_nodup_append distinct mem (by simp [eq])
    obtain ⟨s', depicts', same'⟩ := depicts.perform op fresh
    rw [List.foldl_concat]
    refine ⟨s', depicts', same'.trans ?_⟩
    rw [same]
    cases eq : op.id? <;> simp [eq]

/-- The numbers in the table of a station are those of the requests made there and not resolved. -/
theorem mem_keys_station
    (new : Station.establish exchange (.idle inbox timeout segmentSize) = .ok st)
    (ops : List Station.Operation) (distinct : (ops.filterMap Station.Operation.id?).Nodup)
    (id : Int64) :
    id ∈ (ops.foldl Station.perform st).ledger.requester.keys ↔
      id ∈ ops.filterMap Station.Operation.id? ∧
        id ∉ (ops.foldl Station.perform st).ledger.resolved.map Prod.fst := by
  obtain ⟨s, depicts, same⟩ := exists_depicts new ops distinct
  rw [← same]
  constructor
  · intro pending
    obtain ⟨c, hc, rfl, untold⟩ := depicts.exists_caller pending
    refine ⟨List.mem_map_of_mem hc, fun known => ?_⟩
    obtain ⟨⟨k, result⟩, mem, rfl⟩ := List.mem_map.mp known
    obtain ⟨d, hd, eq, told⟩ := (depicts.outcomes _ result).mp mem
    obtain rfl := (exact_of_reachable depicts.reached).eq_of_id_eq hc hd eq.symm
    cases untold.symm.trans told
  · rintro ⟨asked, unresolved⟩
    obtain ⟨c, hc, rfl⟩ := List.mem_map.mp asked
    have untold : c.outcome? = none := Option.eq_none_iff_forall_not_mem.mpr fun result told =>
      unresolved (List.mem_map.mpr ⟨_, (depicts.outcomes c.id result).mpr ⟨c, hc, rfl, told⟩, rfl⟩)
    obtain ⟨p, found, -⟩ := depicts.waiting c hc untold
    exact Requester.mem_keys_iff.mpr (by simp [← depicts.requester, found])

/-- No request stays in the table of a station beyond its deadline, whatever time passes there. -/
theorem now_le_deadline_station
    (new : Station.establish exchange (.idle inbox timeout segmentSize) = .ok st)
    (ops : List Station.Operation) (distinct : (ops.filterMap Station.Operation.id?).Nodup)
    {id : Int64} {p : Pending}
    (waits : (ops.foldl Station.perform st).ledger.requester.find? id = some p) :
    (ops.foldl Station.perform st).now ≤ p.deadline := by
  obtain ⟨s, depicts, -⟩ := exists_depicts new ops distinct
  obtain ⟨c, hc, rfl, untold⟩ :=
    depicts.exists_caller (Requester.mem_keys_iff.mpr (waits ▸ Option.some_ne_none p))
  obtain ⟨q, found, stage⟩ := depicts.waiting c hc untold
  rw [depicts.requester, waits] at found
  obtain rfl := Option.some.inj found
  have isOpen : c.isOpen = true := by rw [Caller.isOpen_eq, untold]; rfl
  have prompt := (exact_of_reachable depicts.reached).prompt c hc isOpen p.deadline
  rw [stage, depicts.now] at prompt
  exact prompt rfl

end Clientele

end MarketStream.Bus
