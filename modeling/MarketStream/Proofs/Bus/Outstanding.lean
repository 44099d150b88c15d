import Mathlib.Data.List.Nodup
import MarketStream.Proofs.Bus.Callers
import MarketStream.Proofs.Bus.Envelope

/-!
# The table of outstanding requests

However many callers share a requester, and in whatever order their requests are published, refused,
answered, given up or run out of time, the table holds exactly the requests that nothing has come of
yet. Each of the ways to resolve a request takes out this request alone, except that closing the bus
takes out all.

* `Exact` — the table holds the unresolved requests, under punctual timers;
* `exact_of_reachable` — whatever happens keeps to it;
* `Exact.resolves_one` — what is resolved at a time; `Assured` — who is told that no reply will come;
* `Exact.exists_later` — time can always go on;
* `pending_exactly_unresolved` — what this means for the table.
-/

namespace MarketStream.Bus.Clientele

variable {lag : Nat} {s s' : Clientele} {c : Caller}

/-- The table holds the unresolved requests. -/
structure Exact (lag : Nat) (s : Clientele) : Prop where
  /-- Every request has a number of its own. -/
  ids : (s.callers.map Caller.id).Nodup
  /-- The numbers in the table are those of the unresolved requests. -/
  keys : s.requester.keys = s.unresolved
  /-- Someone waits for each reply in the table. -/
  awaited : s.requester.Awaited
  /-- No timer of an unresolved request is too late. -/
  prompt : ∀ c ∈ s.callers, c.isOpen = true → ∀ deadline ∈ c.stage.deadline?,
    s.now ≤ deadline + lag

theorem exact_start (inbox : String) (timeout segmentSize now : Nat) :
    Exact lag (start inbox timeout segmentSize now) where
  ids := List.nodup_nil
  keys := rfl
  awaited _ h := by cases h
  prompt _ h := by cases h

theorem Exact.eq_of_id_eq (h : Exact lag s) {d : Caller} (hc : c ∈ s.callers) (hd : d ∈ s.callers)
    (eq : c.id = d.id) : c = d :=
  List.inj_on_of_nodup_map h.ids hc hd eq

theorem Exact.nodup_keys (h : Exact lag s) : s.requester.keys.Nodup := by
  rw [h.keys]
  exact h.ids.sublist (List.filter_sublist.map Caller.id)

/-! ## Changes that keep the table exact -/

/-- The requests that stay unresolved when something happens to every caller. -/
theorem unresolved_map {callers : List Caller} {f : Caller → Caller} {p : Int64 → Bool}
    (same : ∀ c ∈ callers, (f c).id = c.id)
    (kept : ∀ c ∈ callers, (f c).isOpen = (c.isOpen && p c.id)) :
    ((callers.map f).filter Caller.isOpen).map Caller.id =
      ((callers.filter Caller.isOpen).map Caller.id).filter p := by
  rw [List.filter_map, List.map_map, List.filter_map, List.filter_filter]
  have opens : callers.filter (Caller.isOpen ∘ f) =
      callers.filter fun c => (p ∘ Caller.id) c && c.isOpen := by
    refine List.filter_congr fun c hc => ?_
    rw [Function.comp_apply, kept c hc, Bool.and_comm]
    rfl
  rw [opens]
  exact List.map_congr_left fun c hc => same c (List.mem_filter.mp hc).1

/-- The table and the callers may change together. -/
theorem Exact.map (h : Exact lag s) {r : Requester} {f : Caller → Caller} {p : Int64 → Bool}
    (same : ∀ c ∈ s.callers, (f c).id = c.id)
    (kept : ∀ c ∈ s.callers, (f c).isOpen = (c.isOpen && p c.id))
    (keys : r.keys = s.requester.keys.filter p) (awaited : r.Awaited)
    (prompt : ∀ c ∈ s.callers, (f c).isOpen = true → ∀ deadline ∈ (f c).stage.deadline?,
      s.now ≤ deadline + lag) :
    Exact lag { s with requester := r, callers := s.callers.map f } where
  ids := by
    rw [List.map_map]
    exact (List.map_congr_left same).symm ▸ h.ids
  keys := by
    rw [keys, h.keys]
    exact (unresolved_map same kept).symm
  awaited := awaited
  prompt d hd := by
    obtain ⟨c, hc, rfl⟩ := List.mem_map.mp hd
    exact prompt c hc

/-- Callers are told what the table resolved. -/
theorem Exact.tell (h : Exact lag s) {outcome : Requester × List Resolution}
    (settles : s.requester.Settles outcome) (awaited : outcome.1.Awaited) :
    Exact lag (s.tell outcome) := by
  have kept (c : Caller) :
      (c.hear outcome.2).isOpen = (c.isOpen && (outcome.2.lookup c.id).isNone) := by
    cases letter : c.letter <;> simp [Caller.isOpen, Caller.hear, letter, Bool.and_comm]
  refine h.map (fun _ _ => rfl) (fun c _ => kept c) settles awaited fun c hc isOpen => ?_
  rw [kept, Bool.and_eq_true] at isOpen
  exact h.prompt c hc isOpen.1

/-- A caller goes with what it resolved. -/
theorem Exact.quit (h : Exact lag s) {outcome : Requester × List Resolution}
    (settles : s.requester.Settles outcome) (awaited : outcome.1.Awaited) :
    Exact lag (s.quit outcome) := by
  have kept (c : Caller) :
      (c.depart outcome.2).isOpen = (c.isOpen && (outcome.2.lookup c.id).isNone) := by
    cases news : outcome.2.lookup c.id <;>
      simp [Caller.isOpen, Caller.depart, news, Caller.Stage.result?]
  refine h.map (fun c _ => ?_) (fun c _ => kept c) settles awaited fun c hc isOpen => ?_
  · cases news : outcome.2.lookup c.id <;> simp [Caller.depart, news]
  · have stays : (c.depart outcome.2).stage = c.stage := by
      rw [kept, Bool.and_eq_true, Option.isNone_iff_eq_none] at isOpen
      rw [Caller.depart, isOpen.2]
    rw [kept, Bool.and_eq_true] at isOpen
    exact stays ▸ h.prompt c hc isOpen.1

/-- A caller gets to a stage that resolves nothing. -/
theorem Exact.moveTo (h : Exact lag s) (hc : c ∈ s.callers) {stage : Caller.Stage}
    (kept : ({ c with stage } : Caller).isOpen = c.isOpen)
    (prompt : c.isOpen = true → ∀ deadline ∈ stage.deadline?, s.now ≤ deadline + lag) :
    Exact lag (s.moveTo c.id stage) := by
  have all : s.requester.keys.filter (fun _ => true) = s.requester.keys :=
    List.filter_eq_self.mpr fun _ _ => rfl
  refine h.map (p := fun _ => true) (fun d _ => ?_) (fun d hd => ?_) all.symm h.awaited
    fun d hd isOpen => ?_
  · split <;> rfl
  · split
    · next same =>
      rw [h.eq_of_id_eq hd hc same, kept, Bool.and_true]
    · exact (Bool.and_true _).symm
  · split at isOpen
    · next same =>
      rw [h.eq_of_id_eq hd hc same] at isOpen ⊢
      rw [if_pos rfl]
      exact prompt (kept ▸ isOpen)
    · next other =>
      rw [if_neg other]
      exact h.prompt d hd isOpen

theorem Exact.call (h : Exact lag s) {id : Int64} (new : id ∉ s.callers.map Caller.id) :
    Exact lag (s.call id) where
  ids := nodup_map_concat h.ids new
  keys := by
    have absent : id ∉ s.requester.keys := by
      rw [h.keys]
      exact fun mem => new ((List.filter_sublist.map Caller.id).subset mem)
    show (s.requester.issue s.now id).keys = ((s.callers ++ [_]).filter _).map _
    rw [Requester.keys_issue s.now absent, h.keys, List.filter_append, List.map_append]
    rfl
  awaited := h.awaited.issue s.now
  prompt d hd isOpen := by
    rcases List.mem_append.mp hd with old | fresh
    · exact h.prompt d old isOpen
    · rw [List.mem_singleton.mp fresh]
      exact fun _ none => by cases none

/-! ## Bytes in the inbox -/

/-- A segment is told to the caller whose request it resolves. -/
theorem deliver_of_reply {data : Bytes} {m : Reply} (reads : Reply.decode? data = some m) :
    s.deliver data = s.tell (s.requester.receive m) := by
  rw [deliver, Requester.handle, reads]
  rfl

/-- Other bytes change nothing. -/
theorem deliver_of_unreadable {data : Bytes} (unreadable : Reply.decode? data = none) :
    s.deliver data = s := by
  rw [deliver, Requester.handle, unreadable]
  rfl

/-- Callers who are told nothing are where they were. -/
theorem tell_nothing (s : Clientele) : s.tell (s.requester, []) = s := by
  have same : s.callers.map (fun c => c.hear []) = s.callers := by
    refine (List.map_congr_left fun c _ => ?_).trans (List.map_id _)
    rw [Caller.hear, List.lookup_nil, Option.or_none]
    rfl
  rw [tell, same]

theorem deliver_of_not_pending {data : Bytes}
    (none_waits : ∀ m, Reply.decode? data = some m → m.id ∉ s.requester.keys) :
    s.deliver data = s := by
  cases reads : Reply.decode? data with
  | none => exact deliver_of_unreadable reads
  | some m =>
    have found : s.requester.find? m.id = none :=
      not_not.mp fun waits => none_waits m reads (Requester.mem_keys_iff.mpr waits)
    rw [deliver_of_reply reads, Requester.receive_of_none found, tell_nothing]

theorem Exact.deliver (h : Exact lag s) (data : Bytes) : Exact lag (s.deliver data) := by
  cases reads : Reply.decode? data with
  | none => exact (deliver_of_unreadable reads).symm ▸ h
  | some m =>
    rw [deliver_of_reply reads]
    exact h.tell (h.awaited.settles_receive m) (h.awaited.receive m)

/-! ## Whatever happens -/

theorem Exact.step (h : Exact lag s) (next : Step lag s s') : Exact lag s' := by
  cases next with
  | call id new => exact h.call new
  | send c mem stage =>
    refine h.moveTo mem (by simp [Caller.isOpen, stage, Caller.Stage.result?]) ?_
    rintro - deadline ⟨⟩
    omega
  | refuse c mem stage fault =>
    exact h.quit (Requester.settles_remove _ _ _) (h.awaited.remove c.id)
  | deliver data => exact h.deliver data
  | wake c mem deadline stage result letter =>
    -- The request was resolved when the letter came.
    refine h.moveTo mem (by simp [Caller.isOpen, letter]) fun _ _ none => by cases none
  | tire c mem deadline stage letter due =>
    refine h.moveTo mem (by simp [Caller.isOpen, stage, Caller.Stage.result?]) fun isOpen => ?_
    have prompt := h.prompt c mem isOpen
    rw [stage] at prompt
    exact prompt
  | leave c mem deadline stage =>
    exact h.quit (Requester.settles_remove _ _ _) (h.awaited.remove c.id)
  | close => exact h.tell (Requester.settles_close _) fun _ none => by cases none
  | pass ms prompt => exact { h with prompt }

theorem exact_of_reachable (reached : Reachable lag s) : Exact lag s := by
  induction reached with
  | start inbox timeout segmentSize now => exact exact_start inbox timeout segmentSize now
  | step _ next ih => exact ih.step next

theorem Exact.leads (h : Exact lag s) (leads : Leads lag s s') : Exact lag s' := by
  induction leads with
  | refl => exact h
  | tail _ next ih => exact ih.step next

/-! ## What a step resolves -/

/-- What is missing after a removal is what was removed. -/
theorem find?_remove_of_missing {r : Requester} {id k : Int64} (before : id ∈ r.keys)
    (after : id ∉ (r.remove k).keys) (other : Int64) :
    (r.remove k).find? other = if other = id then none else r.find? other := by
  have same : id = k := by
    rw [Requester.keys_remove, List.mem_filter] at after
    simpa [before] using after
  rw [same, Requester.find?_remove]

/-- A step that resolves a request takes out this one alone, unless it closes the bus. -/
theorem Exact.resolves_one (h : Exact lag s) (next : Step lag s s') {id : Int64}
    (before : id ∈ s.unresolved) (after : id ∉ s'.unresolved) :
    s' = s.close ∨
      ∀ other, s'.requester.find? other =
        if other = id then none else s.requester.find? other := by
  rw [← (h.step next).keys] at after
  rw [← h.keys] at before
  cases next with
  | close => exact .inl rfl
  | refuse c => exact .inr (find?_remove_of_missing before after)
  | leave c => exact .inr (find?_remove_of_missing before after)
  | deliver data =>
    cases reads : Reply.decode? data with
    | none =>
      rw [deliver_of_unreadable reads] at after
      exact absurd before after
    | some m =>
      rw [deliver_of_reply reads] at after ⊢
      rcases h.awaited.receive_cases m with ⟨-, eq⟩ | ⟨a, -, eq⟩ | ⟨result, eq⟩
      · rw [eq] at after
        exact absurd before after
      · rw [eq] at after
        exact absurd ((Requester.keys_update _ _ _).symm ▸ before) after
      · rw [eq] at after ⊢
        exact .inr (find?_remove_of_missing before after)
  | call k new =>
    have absent : k ∉ s.requester.keys := by
      rw [h.keys]
      exact fun mem => new ((List.filter_sublist.map Caller.id).subset mem)
    have keys : (s.call k).requester.keys = s.requester.keys ++ [k] :=
      Requester.keys_issue s.now absent
    rw [keys] at after
    exact absurd (List.mem_append_left _ before) after
  | send | wake | tire | pass => exact absurd before after

/-! ## Closing -/

/-- A caller has a letter, and waits only to go with what is in it. -/
def Assured (s : Clientele) (id : Int64) (result : Except Fault Reply) : Prop :=
  ∃ c ∈ s.callers, c.id = id ∧ c.letter = some result ∧
    ((∃ deadline, c.stage = .waiting deadline) ∨ c.stage = .gone result)

/-- Closing the bus tells every caller whose request is in the table that no reply will come. -/
theorem assured_close (hc : c ∈ s.callers) (isOpen : c.isOpen = true)
    (pending : c.id ∈ s.requester.keys) {deadline : Nat} (waits : c.stage = .waiting deadline) :
    s.close.Assured c.id (.error (.noResponse c.id)) := by
  refine ⟨c.hear s.requester.close.2, List.mem_map_of_mem hc, rfl, ?_, .inl ⟨deadline, waits⟩⟩
  obtain ⟨p, found⟩ := Option.ne_none_iff_exists'.mp (Requester.mem_keys_iff.mp pending)
  rw [Caller.isOpen, Bool.and_eq_true, Option.isNone_iff_eq_none] at isOpen
  rw [Caller.hear, isOpen.1, Requester.lookup_close, found]
  rfl

/-- A letter stays where it is until its caller goes with it. -/
theorem Assured.step {id : Int64} {result : Except Fault Reply} (h : s.Assured id result)
    (exact : Exact lag s) (next : Step lag s s') : s'.Assured id result := by
  obtain ⟨c, hc, rfl, letter, stage⟩ := h
  -- A caller at another stage is another caller.
  have other {d : Caller} (hd : d ∈ s.callers) (busy : ∀ deadline, d.stage ≠ .waiting deadline)
      (here : ∀ result, d.stage ≠ .gone result) : c.id ≠ d.id := by
    intro same
    obtain rfl := exact.eq_of_id_eq hc hd same
    rcases stage with ⟨deadline, waits⟩ | gone
    · exact busy deadline waits
    · exact here result gone
  have unmoved {d : Caller} {next : Caller.Stage} (ne : c.id ≠ d.id) :
      (s.moveTo d.id next).Assured c.id result :=
    ⟨c, List.mem_map.mpr ⟨c, hc, if_neg ne⟩, rfl, letter, stage⟩
  have stays {d : Caller} {r : Requester} {outcome : Except Fault Reply} (ne : c.id ≠ d.id) :
      (s.quit (r, [(d.id, outcome)])).Assured c.id result := by
    refine ⟨c, List.mem_map.mpr ⟨c, hc, ?_⟩, rfl, letter, stage⟩
    rw [Caller.depart, lookup_cons_ite, if_neg ne]
    rfl
  have told (outcome : Requester × List Resolution) : (s.tell outcome).Assured c.id result := by
    refine ⟨c.hear outcome.2, List.mem_map_of_mem hc, rfl, ?_, stage⟩
    rw [Caller.hear, letter]
    rfl
  cases next with
  | call k new => exact ⟨c, List.mem_append_left _ hc, rfl, letter, stage⟩
  | send d hd sending => exact unmoved (other hd (by simp [sending]) (by simp [sending]))
  | refuse d hd sending fault => exact stays (other hd (by simp [sending]) (by simp [sending]))
  | deliver data =>
    cases reads : Reply.decode? data with
    | none => exact (deliver_of_unreadable reads).symm ▸ ⟨c, hc, rfl, letter, stage⟩
    | some m => exact (deliver_of_reply reads).symm ▸ told _
  | wake d hd deadline waits outcome found =>
    by_cases same : c.id = d.id
    · obtain rfl := exact.eq_of_id_eq hc hd same
      obtain rfl := Option.some.inj (letter.symm.trans found)
      exact ⟨_, List.mem_map.mpr ⟨c, hc, if_pos rfl⟩, rfl, letter, .inr rfl⟩
    · exact unmoved same
  | tire d hd deadline waits empty due =>
    refine unmoved fun same => ?_
    obtain rfl := exact.eq_of_id_eq hc hd same
    cases letter.symm.trans empty
  | leave d hd deadline leaving => exact stays (other hd (by simp [leaving]) (by simp [leaving]))
  | close => exact told _
  | pass ms prompt => exact ⟨c, hc, rfl, letter, stage⟩

theorem Assured.leads {id : Int64} {result : Except Fault Reply} (h : s.Assured id result)
    (exact : Exact lag s) (leads : Leads lag s s') : s'.Assured id result := by
  induction leads with
  | refl => exact h
  | tail before next ih => exact ih.step (exact.leads before) next

/-! ## Time goes on -/

/-- What happens without a request and without a letter. -/
structure Idle (s s' : Clientele) : Prop where
  /-- No request is made. -/
  ids : s'.callers.map Caller.id = s.callers.map Caller.id
  /-- Nothing is handed over. -/
  letters : s'.callers.map Caller.letter = s.callers.map Caller.letter

theorem Idle.trans {s'' : Clientele} (h : Idle s s') (next : Idle s' s'') : Idle s s'' :=
  ⟨next.ids.trans h.ids, next.letters.trans h.letters⟩

theorem idle_map {r : Requester} {f : Caller → Caller}
    (same : ∀ c, (f c).id = c.id ∧ (f c).letter = c.letter) :
    Idle s { s with requester := r, callers := s.callers.map f } where
  ids := List.map_map.trans (List.map_congr_left fun c _ => (same c).1)
  letters := List.map_map.trans (List.map_congr_left fun c _ => (same c).2)

theorem idle_moveTo (s : Clientele) (id : Int64) (stage : Caller.Stage) :
    Idle s (s.moveTo id stage) :=
  idle_map fun c => by split <;> exact ⟨rfl, rfl⟩

theorem idle_quit (s : Clientele) (outcome : Requester × List Resolution) :
    Idle s (s.quit outcome) :=
  idle_map fun c => by rw [Caller.depart]; split <;> exact ⟨rfl, rfl⟩

/-- A caller of whose request nothing has come can go once its time is up, and takes its request out
of the table. -/
theorem Exact.exists_left (h : Exact lag s) (hc : c ∈ s.callers) (isOpen : c.isOpen = true)
    {deadline : Nat} (waits : deadline ∈ c.stage.deadline?) (due : deadline ≤ s.now) :
    ∃ s', Leads lag s s' ∧ Idle s s' ∧ s'.now = s.now ∧
      s'.requester.keys.length < s.requester.keys.length := by
  have pending : c.id ∈ s.requester.keys := by
    rw [h.keys]
    exact List.mem_map_of_mem (List.mem_filter.mpr ⟨hc, isOpen⟩)
  have fewer : (s.requester.remove c.id).keys.length < s.requester.keys.length := by
    rw [Requester.keys_remove]
    exact List.length_filter_lt_length_iff_exists.mpr ⟨c.id, pending, by simp⟩
  cases stage : c.stage with
  | sending =>
    rw [stage] at waits
    cases waits
  | waiting instant =>
    rw [stage] at waits
    obtain rfl := Option.some.inj waits
    have letter : c.letter = none := by
      rw [Caller.isOpen, Bool.and_eq_true] at isOpen
      exact Option.isNone_iff_eq_none.mp isOpen.1
    have mem : ({ c with stage := .leaving instant } : Caller) ∈ (s.tire c.id instant).callers :=
      List.mem_map.mpr ⟨c, hc, if_pos rfl⟩
    have tired : Step lag s (s.tire c.id instant) := .tire c hc instant stage letter due
    have left : Step lag (s.tire c.id instant) ((s.tire c.id instant).leave c.id) :=
      .leave { c with stage := .leaving instant } mem instant rfl
    exact ⟨_, .tail (.single tired) left, (idle_moveTo s _ _).trans (idle_quit _ _), rfl, fewer⟩
  | leaving instant =>
    exact ⟨s.leave c.id, .single (.leave c hc instant stage), idle_quit s _, rfl, fewer⟩
  | gone result =>
    rw [stage] at waits
    cases waits

/-- Time never stands still: if nothing else happens, the callers whose time is up go one after
another, and any instant comes. -/
theorem Exact.exists_later (h : Exact lag s) (instant : Nat) :
    ∃ s', Leads lag s s' ∧ Idle s s' ∧ instant ≤ s'.now := by
  -- Either time passes or a caller goes, which leaves fewer requests in the table.
  generalize ahead : instant - s.now = wait
  induction wait generalizing s with
  | zero => exact ⟨s, .refl, ⟨rfl, rfl⟩, by omega⟩
  | succ wait passed =>
    generalize size : s.requester.keys.length = n
    induction n using Nat.strongRecOn generalizing s with
    | ind n fewer =>
      by_cases prompt : ∀ c ∈ s.callers, c.isOpen = true → ∀ deadline ∈ c.stage.deadline?,
          s.now + 1 ≤ deadline + lag
      · have now : (s.pass 1).now = s.now + 1 := rfl
        have next : Step lag s (s.pass 1) := .pass 1 prompt
        obtain ⟨s', leads, idle, le⟩ := passed (h.step next) (by omega)
        exact ⟨s', .head next leads, ⟨idle.ids, idle.letters⟩, le⟩
      · push Not at prompt
        obtain ⟨c, hc, isOpen, deadline, waits, due⟩ := prompt
        obtain ⟨s₁, left, idle, now, shorter⟩ := h.exists_left hc isOpen waits (by omega)
        obtain ⟨s', leads, idle', le⟩ :=
          fewer _ (size ▸ shorter) (h.leads left) (now ▸ ahead) rfl
        exact ⟨s', left.trans leads, idle.trans idle', le⟩

/-- **The table of outstanding requests is exact.** Whatever has happened so far, the numbers in the
table are those of the requests that were made and that nothing has come of yet, each once. A step
that resolves a request, by a reply or the failure of the replying side, because its message is
refused or its time is up, takes this request out of the table and leaves all others as they were,
unless the step closes the bus; closing takes out all, and who waits for one of them can only go
with the word that no reply comes. Bytes that are no segment for a request in the table change
nothing, and neither does a second removal. No request stays in the table beyond its deadline, but
for the `lag` of its timer, and time can always go on, even if no request is made and nothing is handed
over any more. -/
theorem pending_exactly_unresolved (reached : Reachable lag s) :
    (s.requester.keys = s.unresolved ∧ s.requester.keys.Nodup) ∧
    (∀ s', Step lag s s' → ∀ id ∈ s.unresolved, id ∉ s'.unresolved →
      s' = s.close ∨
        ∀ other, s'.requester.find? other =
          if other = id then none else s.requester.find? other) ∧
    (s.close.requester.keys = [] ∧
      ∀ c ∈ s.callers, c.id ∈ s.requester.keys → ∀ deadline, c.stage = .waiting deadline →
        ∀ later, Leads lag s.close later → later.Assured c.id (.error (.noResponse c.id))) ∧
    (∀ data, (∀ m, Reply.decode? data = some m → m.id ∉ s.requester.keys) →
      s.deliver data = s) ∧
    (∀ id ∉ s.requester.keys, (∀ fault, (s.refuse id fault).requester = s.requester) ∧
      (s.leave id).requester = s.requester) ∧
    (∀ id ∈ s.requester.keys, ∃ c ∈ s.callers, c.id = id ∧
      ∀ deadline ∈ c.stage.deadline?, s.now ≤ deadline + lag) ∧
    (∀ instant, ∃ later, Leads lag s later ∧ Idle s later ∧ instant ≤ later.now) := by
  have exact := exact_of_reachable reached
  have isOpen_of_mem {id : Int64} (h : id ∈ s.requester.keys) :
      ∃ c ∈ s.callers, c.isOpen = true ∧ c.id = id := by
    rw [exact.keys] at h
    obtain ⟨c, hc, eq⟩ := List.mem_map.mp h
    exact ⟨c, (List.mem_filter.mp hc).1, (List.mem_filter.mp hc).2, eq⟩
  refine ⟨⟨exact.keys, exact.nodup_keys⟩, fun s' next id => exact.resolves_one next, ⟨rfl, ?_⟩,
    fun data => deliver_of_not_pending, fun id gone => ?_, fun id pending => ?_,
    exact.exists_later⟩
  · intro c hc pending deadline waits later leads
    obtain ⟨d, hd, isOpen, same⟩ := isOpen_of_mem pending
    obtain rfl := exact.eq_of_id_eq hd hc same
    exact (assured_close hc isOpen pending waits).leads (exact.step .close) leads
  · exact ⟨fun _ => Requester.remove_of_not_mem gone, Requester.remove_of_not_mem gone⟩
  · obtain ⟨c, hc, isOpen, same⟩ := isOpen_of_mem pending
    exact ⟨c, hc, same, exact.prompt c hc isOpen⟩

/-! ## Four requests -/

namespace Sample

/-- The reply to the first request. -/
def answer : Reply := ⟨7, 1, 1, [1], ""⟩

/-- Four requests, of which the second is refused; the others are published. -/
def published : Clientele :=
  (((((((start "in" 100 2 0).call 7).send 7).call 8).refuse 8 .closed).call 9).send 9).call 10
    |>.send 10

/-- The first is answered, the third runs out of time, and the fourth is about to. -/
def state : Clientele :=
  ((((published.deliver answer.encode).wake 7 (.ok answer)).pass 100).tire 9 100).leave 9

/-- What comes of it. -/
theorem state_callers :
    state.callers = [⟨7, .gone (.ok answer), some (.ok answer)⟩, ⟨8, .gone (.error .closed), none⟩,
        ⟨9, .gone (.error (.timeout 9 100)), none⟩, ⟨10, .waiting 100, none⟩] ∧
      state.requester.keys = [10] := by
  rw [state, deliver_of_reply (Reply.decode?_encode answer)]
  exact ⟨rfl, rfl⟩

theorem pass_of_waiting {s : Clientele} (ms : Nat)
    (prompt : ∀ c ∈ s.callers, ∀ deadline ∈ c.stage.deadline?, s.now + ms ≤ deadline) :
    Step 0 s (s.pass ms) :=
  .pass ms fun c hc _ => prompt c hc

theorem reachable_published : Reachable 0 published := by
  have start : Reachable 0 (start "in" 100 2 0) := .start ..
  have first := (start.step (.call 7 (by decide))).step (.send ⟨7, .sending, none⟩ (.head _) rfl)
  have second := (first.step (.call 8 (by decide))).step
    (.refuse ⟨8, .sending, none⟩ (.tail _ (.head _)) rfl .closed)
  have third := (second.step (.call 9 (by decide))).step
    (.send ⟨9, .sending, none⟩ (.tail _ (.tail _ (.head _))) rfl)
  exact (third.step (.call 10 (by decide))).step
    (.send ⟨10, .sending, none⟩ (.tail _ (.tail _ (.tail _ (.head _)))) rfl)

theorem reachable_state : Reachable 0 state := by
  have arrived := reachable_published.step (.deliver answer.encode)
  rw [state]
  rw [deliver_of_reply (Reply.decode?_encode answer)] at arrived ⊢
  have woken := arrived.step (.wake ⟨7, .waiting 100, some (.ok answer)⟩ (.head _) 100 rfl _ rfl)
  have late := woken.step (pass_of_waiting 100 (by decide))
  have tired := late.step
    (.tire ⟨9, .waiting 100, none⟩ (.tail _ (.tail _ (.head _))) 100 rfl rfl (by decide))
  exact tired.step (.leave ⟨9, .leaving 100, none⟩ (.tail _ (.tail _ (.head _))) 100 rfl)

end Sample

/-- Only the fourth request is still in the table; if the bus is closed, its caller goes with the
word that no reply comes. -/
theorem pending_exactly_unresolved_sample :
    Reachable 0 Sample.state ∧ Sample.state.unresolved = [10] ∧
      ∀ later, Leads 0 Sample.state.close later →
        later.Assured 10 (.error (.noResponse 10)) := by
  obtain ⟨callers, keys⟩ := Sample.state_callers
  obtain ⟨⟨exact, -⟩, -, ⟨-, closing⟩, -⟩ := pending_exactly_unresolved Sample.reachable_state
  refine ⟨Sample.reachable_state, exact.symm.trans keys, ?_⟩
  refine closing ⟨10, .waiting 100, none⟩ ?_ ?_ 100 rfl
  · rw [callers]
    exact .tail _ (.tail _ (.tail _ (.head _)))
  · rw [keys]
    exact .head _

end MarketStream.Bus.Clientele
