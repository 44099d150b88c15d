import MarketStream.Proofs.Bus.Deliveries

/-!
# A mailroom on its own

Whatever is done with a mailroom, one operation after another, happens in an office: a message is
handed to all subscriptions to its topic before anything else, and a worker's handler always makes
the same of a message. So what holds of all offices holds of a mailroom.

* `Mailroom.Operation`, `Mailroom.perform` — what is done with a mailroom;
* `atPlaces` — subscriptions of which those at some places are changed;
* `Office.publish_at_once`, `Office.exists_work`, `Office.exists_settle` — single operations;
* `Office.exists_calm` — an office for any number of them;
* `Mailroom.contents_performed` — what a subscription gets.
-/

namespace MarketStream.Bus

/-- What is done with a mailroom. -/
inductive Mailroom.Operation where
  /-- A subscription is added. -/
  | subscribe (topic : String) (handler : Bytes → Except Fault Unit)
  /-- A message is published. -/
  | publish (topic : String) (data : Bytes)
  /-- The worker at a place gets to run. -/
  | work (place : Nat)
  /-- All workers empty their queues. -/
  | settle
  /-- The mailroom is closed. -/
  | close

/-- Where an operation leads. One that is refused changes nothing. -/
def Mailroom.perform (m : Mailroom) : Mailroom.Operation → Mailroom
  | .subscribe topic handler =>
    match m.subscribe topic handler with
    | .ok m => m
    | .error _ => m
  | .publish topic data =>
    match m.publish topic data with
    | .ok m => m
    | .error _ => m
  | .work place => m.work place
  | .settle => m.settle
  | .close => m.close

/-- The message that is published by an operation, with its topic, unless it is refused. -/
def Mailroom.accepts (m : Mailroom) : Mailroom.Operation → Option (String × Bytes)
  | .publish topic data => m.published topic data
  | .subscribe .. | .work _ | .settle | .close => none

/-- The messages that are published by these operations, in this order. -/
def Mailroom.accepted (m : Mailroom) : List Mailroom.Operation → List (String × Bytes)
  | [] => []
  | operation :: rest => (m.accepts operation).toList ++ (m.perform operation).accepted rest

/-! ## Subscriptions at some places -/

/-- The subscriptions after those at some places have changed. -/
def atPlaces (places : List Nat) (f : Subscription → Subscription)
    (subscriptions : List Subscription) : List Subscription :=
  subscriptions.mapIdx fun i s => if i ∈ places then f s else s

section

variable {places rest : List Nat} {f : Subscription → Subscription}
  {subscriptions : List Subscription} {i : Nat}

theorem getElem?_atPlaces :
    (atPlaces places f subscriptions)[i]? =
      (subscriptions[i]?).map fun s => if i ∈ places then f s else s :=
  List.getElem?_mapIdx

theorem atPlaces_nil : atPlaces [] f subscriptions = subscriptions := by
  refine List.ext_getElem? fun i => ?_
  rw [getElem?_atPlaces]
  simp

/-- One place after the other. -/
theorem atPlaces_cons (new : i ∉ rest) :
    atPlaces rest f (subscriptions.modify i f) = atPlaces (i :: rest) f subscriptions := by
  refine List.ext_getElem? fun j => ?_
  rw [getElem?_atPlaces, getElem?_atPlaces, List.getElem?_modify]
  rcases subscriptions[j]? with _ | s
  · rfl
  · by_cases here : i = j
    · subst here
      simp [new]
    · simp [here, Ne.symm here]

/-- If a change concerns no other place, it is one of all subscriptions. -/
theorem atPlaces_eq_map (others : ∀ i s, subscriptions[i]? = some s → i ∉ places → f s = s) :
    atPlaces places f subscriptions = subscriptions.map f := by
  refine List.ext_getElem? fun i => ?_
  rw [getElem?_atPlaces, List.getElem?_map]
  cases there : subscriptions[i]? with
  | none => rfl
  | some s =>
    rw [Option.map_some, Option.map_some]
    by_cases mem : i ∈ places
    · rw [if_pos mem]
    · rw [if_neg mem, others i s there mem]

/-- A change at a place concerns the subscription there. -/
theorem modify_congr {g : Subscription → Subscription}
    (same : ∀ s, subscriptions[i]? = some s → f s = g s) :
    subscriptions.modify i f = subscriptions.modify i g := by
  rw [List.modify_eq_set_getElem?, List.modify_eq_set_getElem?]
  cases there : subscriptions[i]? with
  | none => rfl
  | some s => exact congrArg (subscriptions.set i) (same s there)

end

namespace Office

variable {o : Office}

/-! ## Publishing -/

/-- A message gets to all subscriptions on its way, one right after another. -/
theorem run_hands {p : Posting} {number : Nat} (there : o.postings[number]? = some p)
    (once : p.ahead.Nodup) :
    o.run (List.replicate p.ahead.length (.hand number)) =
      ⟨{ o.room with
          subscriptions := atPlaces p.ahead (.offer p.topic p.data) o.room.subscriptions },
        o.postings.set number { p with ahead := [] }⟩ := by
  obtain ⟨topic, data, ahead, alongside⟩ := p
  induction ahead generalizing o with
  | nil =>
    obtain ⟨lt, here⟩ := List.getElem?_eq_some_iff.mp there
    have same : o.postings.set number ⟨topic, data, [], alongside⟩ = o.postings := by
      rw [← here, List.set_getElem_self]
    rw [atPlaces_nil, same]
    rfl
  | cons i rest ih =>
    obtain ⟨new, once⟩ := List.nodup_cons.mp once
    have first : o.act (.hand number)
        = o.passOn number ⟨topic, data, i :: rest, alongside⟩ i rest := by
      rw [act, hand, there]
    have here : (o.act (.hand number)).postings[number]?
        = some ⟨topic, data, rest, alongside⟩ := by
      rw [first, getElem?_passOn there, if_pos rfl]
    have later := ih here once
    rw [first, passOn, List.set_set] at later
    show (o.act (.hand number)).run (List.replicate rest.length (.hand number)) = _
    rw [first, passOn, later]
    exact congrArg (fun subscriptions => (⟨{ o.room with subscriptions }, _⟩ : Office))
      (atPlaces_cons new)

/-- A message that gets to all subscriptions to its topic with nothing in between is published. -/
theorem publish_at_once {topic : String} {data : Bytes} {room : Mailroom}
    (taken : o.room.publish topic data = .ok room) :
    o.run (.publish topic data ::
        List.replicate (o.room.places topic).length (.hand o.postings.length))
      = ⟨room, o.postings ++ [⟨topic, data, [], o.underway⟩]⟩ := by
  have everyone : atPlaces (o.room.places topic) (.offer topic data) o.room.subscriptions
      = o.room.subscriptions.map (.offer topic data) := by
    refine atPlaces_eq_map fun i s there notMem => if_neg fun own => notMem ?_
    exact Mailroom.mem_places.mpr ⟨s, there, own⟩
  rw [Mailroom.publish] at taken
  split at taken
  · next taking =>
    obtain rfl := Except.ok.inj taken
    have first := @act_publish o topic data
    rw [if_pos taking] at first
    show (o.act (.publish topic data)).run _ = _
    rw [first, run_hands (p := ⟨topic, data, o.room.places topic, o.underway⟩)
      List.getElem?_concat_length (o.room.nodup_places topic), everyone]
    simp
  · cases taken

/-! ## Working -/

variable (o) in
theorem atPlace_atPlace (i : Nat) (f g : Subscription → Subscription) :
    (o.atPlace i f).atPlace i g = o.atPlace i (g ∘ f) :=
  congrArg (fun subscriptions => (⟨{ o.room with subscriptions }, o.postings⟩ : Office))
    (List.modify_modify_eq ..)

variable (o) in
theorem atPlace_congr {i : Nat} {f g : Subscription → Subscription}
    (same : ∀ s, o.room.subscriptions[i]? = some s → f s = g s) :
    o.atPlace i f = o.atPlace i g :=
  congrArg (fun subscriptions => (⟨{ o.room with subscriptions }, o.postings⟩ : Office))
    (modify_congr same)

variable (o) in
theorem atPlace_id (i : Nat) : o.atPlace i id = o :=
  congrArg (fun subscriptions => (⟨{ o.room with subscriptions }, o.postings⟩ : Office))
    (List.modify_id ..)

/-- There is nothing to change at a place that nobody has. -/
theorem atPlace_of_none {i : Nat} (vacant : o.room.subscriptions[i]? = none)
    (f : Subscription → Subscription) : o.atPlace i f = o := by
  have same : ∀ s, o.room.subscriptions[i]? = some s → f s = id s := by
    intro s there
    rw [vacant] at there
    cases there
  exact (o.atPlace_congr same).trans (o.atPlace_id i)

variable (o) in
/-- A worker whose handler makes the same of a message as ever. -/
theorem exists_work (i : Nat) :
    ∃ happenings, o.run happenings = o.atPlace i Subscription.work := by
  cases there : o.room.subscriptions[i]? with
  | none => exact ⟨[], (atPlace_of_none there _).symm⟩
  | some s =>
    refine ⟨[.work i (s.queued.head?.elim (.ok ()) s.handler)], o.atPlace_congr fun s' here => ?_⟩
    obtain rfl := Option.some.inj (there.symm.trans here)
    exact s.work_eq_take.symm

variable (o) in
/-- A worker that gets to run a number of times. -/
theorem exists_works (i n : Nat) :
    ∃ happenings, o.run happenings = o.atPlace i (Nat.repeat Subscription.work n) := by
  induction n with
  | zero => exact ⟨[], (o.atPlace_id i).symm⟩
  | succ n ih =>
    obtain ⟨before, first⟩ := ih
    obtain ⟨once, last⟩ := (o.run before).exists_work i
    refine ⟨before ++ once, ?_⟩
    rw [run_append, last, first, atPlace_atPlace]
    rfl

variable (o) in
/-- A worker empties its queue. -/
theorem exists_settle_at (i : Nat) :
    ∃ happenings, o.run happenings = o.atPlace i Subscription.settle := by
  cases there : o.room.subscriptions[i]? with
  | none => exact ⟨[], (atPlace_of_none there _).symm⟩
  | some s =>
    obtain ⟨happenings, works⟩ := o.exists_works i s.queued.length
    refine ⟨happenings, works.trans (o.atPlace_congr fun s' here => ?_)⟩
    obtain rfl := Option.some.inj (there.symm.trans here)
    rfl

variable (o) in
/-- The workers at some places empty their queues, one after another. -/
theorem exists_settle_places {places : List Nat} (once : places.Nodup) :
    ∃ happenings, o.run happenings = { o with room := { o.room with
      subscriptions := atPlaces places Subscription.settle o.room.subscriptions } } := by
  induction places generalizing o with
  | nil =>
    refine ⟨[], ?_⟩
    rw [atPlaces_nil]
    rfl
  | cons i rest ih =>
    obtain ⟨new, once⟩ := List.nodup_cons.mp once
    obtain ⟨first, settled⟩ := o.exists_settle_at i
    obtain ⟨others, all⟩ := ih (o.atPlace i Subscription.settle) once
    refine ⟨first ++ others, ?_⟩
    rw [run_append, settled, all]
    exact congrArg (fun subscriptions => (⟨{ o.room with subscriptions }, o.postings⟩ : Office))
      (atPlaces_cons new)

variable (o) in
/-- All workers empty their queues. -/
theorem exists_settle :
    ∃ happenings, o.run happenings = { o with room := o.room.settle } := by
  obtain ⟨happenings, all⟩ :=
    o.exists_settle_places (List.nodup_range (n := o.room.subscriptions.length))
  refine ⟨happenings, all.trans ?_⟩
  rw [atPlaces_eq_map fun i s there notMem => absurd
    (List.mem_range.mpr (List.getElem?_eq_some_iff.mp there).1) notMem]
  rfl

/-! ## One operation after another -/

/-- No message is or ever was on its way together with another. -/
def IsCalm (o : Office) : Prop := ∀ p ∈ o.postings, p.ahead = [] ∧ p.alongside = []

namespace IsCalm

theorem underway_eq_nil (h : o.IsCalm) : o.underway = [] := by
  refine List.eq_nil_iff_forall_not_mem.mpr fun k mem => ?_
  obtain ⟨p, there, onWay⟩ := mem_underway.mp mem
  exact onWay (h p (List.mem_of_getElem? there)).1

theorem isBusy_eq_false (h : o.IsCalm) : o.isBusy = false := by
  rw [isBusy, h.underway_eq_nil]
  rfl

/-- Subscribing, when nothing is on its way. -/
theorem subscribe (h : o.IsCalm) (topic : String) (handler : Bytes → Except Fault Unit) :
    (o.act (.subscribe topic handler)).IsCalm ∧
      (o.act (.subscribe topic handler)).room = o.room.perform (.subscribe topic handler) := by
  rw [IsCalm, postings_subscribe, act, h.isBusy_eq_false, Mailroom.perform]
  cases o.room.subscribe topic handler <;> exact ⟨h, rfl⟩

/-- One operation. -/
theorem perform (h : o.IsCalm) (operation : Mailroom.Operation) :
    ∃ happenings, (o.run happenings).IsCalm ∧
      (o.run happenings).room = o.room.perform operation ∧
      (o.run happenings).postings.map Posting.content
        = o.postings.map Posting.content ++ (o.room.accepts operation).toList := by
  cases operation with
  | subscribe topic handler =>
    obtain ⟨calm, room⟩ := h.subscribe topic handler
    refine ⟨[.subscribe topic handler], calm, room, ?_⟩
    show (o.act (.subscribe topic handler)).postings.map Posting.content = _ ++ []
    rw [postings_subscribe, List.append_nil]
  | publish topic data =>
    rw [Mailroom.perform, Mailroom.accepts, Mailroom.published]
    cases taken : o.room.publish topic data with
    | error e => exact ⟨[], h, rfl, (List.append_nil _).symm⟩
    | ok room =>
      refine ⟨_, ?_, congrArg Office.room (publish_at_once taken), ?_⟩
      · rw [publish_at_once taken, h.underway_eq_nil]
        exact List.forall_mem_append.mpr ⟨h, List.forall_mem_singleton.mpr ⟨rfl, rfl⟩⟩
      · rw [publish_at_once taken]
        exact List.map_append
  | work place =>
    obtain ⟨happenings, works⟩ := o.exists_work place
    refine ⟨happenings, ?_⟩
    rw [works]
    exact ⟨h, rfl, (List.append_nil _).symm⟩
  | settle =>
    obtain ⟨happenings, settles⟩ := o.exists_settle
    refine ⟨happenings, ?_⟩
    rw [settles]
    exact ⟨h, rfl, (List.append_nil _).symm⟩
  | close =>
    refine ⟨[.close], ?_⟩
    show (o.act .close).IsCalm ∧ (o.act .close).room = _ ∧ (o.act .close).postings.map _ = _
    rw [act, h.isBusy_eq_false]
    exact ⟨h, rfl, (List.append_nil _).symm⟩

/-- One operation after another. -/
theorem operations (h : o.IsCalm) (operations : List Mailroom.Operation) :
    ∃ happenings, (o.run happenings).IsCalm ∧
      (o.run happenings).room = operations.foldl Mailroom.perform o.room ∧
      (o.run happenings).postings.map Posting.content
        = o.postings.map Posting.content ++ o.room.accepted operations := by
  induction operations generalizing o with
  | nil => exact ⟨[], h, rfl, (List.append_nil _).symm⟩
  | cons operation rest ih =>
    obtain ⟨first, calm, room, content⟩ := h.perform operation
    obtain ⟨later, calm', room', content'⟩ := ih calm
    refine ⟨first ++ later, ?_⟩
    rw [run_append, List.foldl_cons, Mailroom.accepted, ← room, ← List.append_assoc, ← content]
    exact ⟨calm', room', content'⟩

/-- What has come to a subscription are the messages on its topic. -/
theorem contents_eq (h : o.IsCalm) {since place : Nat} {s : Subscription} {order : List Nat}
    (arrived : Arrived o since place s order) :
    s.handled ++ s.queued = (((o.postings.map Posting.content).drop since).filter fun message =>
      message.1 = s.topic).map Prod.snd := by
  have apart : o.Apart since s.topic := by
    intro k j p q _ _ there _ _
    rw [(h q (List.mem_of_getElem? there)).2]
    exact List.not_mem_nil
  rw [arrived.contents_eq apart, ← List.map_drop, List.filter_map, List.map_map]
  refine congrArg _ (List.filter_congr fun p mem => decide_eq_decide.mpr ?_)
  rw [(h p (List.mem_of_mem_drop mem)).1]
  exact and_iff_left List.not_mem_nil

end IsCalm

theorem isCalm_start : start.IsCalm := fun p mem => by cases mem

/-- **A mailroom is an office.** Whatever is done with a mailroom, there is an office in which it
has come to the same, and in which no two messages were ever on their way at once. -/
theorem exists_calm (operations : List Mailroom.Operation) :
    ∃ happenings, (start.run happenings).IsCalm ∧
      (start.run happenings).room = operations.foldl Mailroom.perform .empty := by
  obtain ⟨happenings, calm, room, -⟩ := isCalm_start.operations operations
  exact ⟨happenings, calm, room⟩

end Office

/-- **What a subscription gets.** In a mailroom that is used by one operation after another, what
the handler of a subscription has had, followed by what is queued for it, are the messages published
on its topic since it was added, in this order. -/
theorem Mailroom.contents_performed (before after : List Mailroom.Operation) (topic : String)
    (handler : Bytes → Except Fault Unit)
    (taking : (before.foldl Mailroom.perform .empty).isOpen = true) :
    let m := before.foldl Mailroom.perform .empty
    let added := m.perform (.subscribe topic handler)
    ∃ s, (after.foldl Mailroom.perform added).subscriptions[m.subscriptions.length]? = some s ∧
      s.topic = topic ∧ s.handler = handler ∧
      s.handled ++ s.queued
        = ((added.accepted after).filter fun message => message.1 = topic).map Prod.snd := by
  intro m added
  obtain ⟨first, calm, room⟩ := Office.exists_calm before
  obtain ⟨calm₁, room₁⟩ := calm.subscribe topic handler
  obtain ⟨later, calm₂, room₂, content⟩ := calm₁.operations after
  have sound := (Office.sound_start.run first).turn (Office.turn_act _ (.subscribe topic handler))
  obtain ⟨s, order, arrived, sameTopic, sameHandler⟩ :=
    (Office.arrived_subscribed calm.isBusy_eq_false (room ▸ taking) topic handler).run sound later
  rw [room₁, room] at room₂ content
  refine ⟨s, ?_, sameTopic, sameHandler, ?_⟩
  · show (after.foldl perform added).subscriptions[
      (before.foldl perform empty).subscriptions.length]? = some s
    rw [← room₂, ← room]
    exact arrived.there
  · rw [calm₂.contents_eq arrived, content, Office.postings_subscribe,
      List.drop_left' (List.length_map ..), sameTopic]
    rfl

end MarketStream.Bus
