import Mathlib.Data.List.Nodup
import MarketStream.Bus.Mailroom

/-!
# A mailroom at work

Publishing takes its time: a message is handed to one subscription after another while others may be
on their way, and each worker takes what is queued for its subscription whenever it gets to run,
whatever its handler then makes of it. Subscribing and closing wait until no message is on its way.

* `Posting` — a message that was taken, and how far it has got;
* `Office` — a mailroom with all messages it ever took; `Happening` — what may happen in it;
* `Office.act`, `Office.run` — where happenings lead; `Office.accepted` — what is published then;
* `Office.Turn`, `Office.turn_act` — what a happening can do;
* `Office.content_run` — an office has the messages it accepted.
-/

namespace MarketStream.Bus

/-! ## Subscriptions -/

/-- Hands the oldest queued message to the handler, which makes something of it. -/
def Subscription.take (outcome : Except Fault Unit) (s : Subscription) : Subscription :=
  match s.queued with
  | [] => s
  | data :: rest =>
    let failures := match outcome with
      | .ok () => s.failures
      | .error e => s.failures ++ [e]
    { s with handled := s.handled ++ [data], queued := rest, failures }

namespace Subscription

variable (s : Subscription) (topic : String) (data : Bytes) (outcome : Except Fault Unit)

/-- A worker hands over a message with what the handler makes of it. -/
theorem work_eq_take : s.work = s.take (s.queued.head?.elim (.ok ()) s.handler) := by
  rw [work.eq_def, take.eq_def]
  cases s.queued <;> rfl

theorem topic_take : (s.take outcome).topic = s.topic := by
  rw [take.eq_def]
  split <;> rfl

theorem handler_take : (s.take outcome).handler = s.handler := by
  rw [take.eq_def]
  split <;> rfl

/-- What a handler is given comes off the queue. -/
theorem contents_take :
    (s.take outcome).handled ++ (s.take outcome).queued = s.handled ++ s.queued := by
  rw [take.eq_def]
  split
  · rfl
  · next queued =>
    rw [queued]
    exact List.append_assoc ..

theorem length_handled_take :
    (s.take outcome).handled.length
      = min (s.handled.length + 1) (s.handled ++ s.queued).length := by
  rw [take.eq_def]
  split
  · next queued => rw [queued, List.append_nil, Nat.min_eq_right (Nat.le_succ _)]
  · next queued =>
    simp only [queued, List.length_append, List.length_cons, List.length_nil]
    omega

theorem topic_offer : (s.offer topic data).topic = s.topic := by
  rw [offer]
  split <;> rfl

theorem handler_offer : (s.offer topic data).handler = s.handler := by
  rw [offer]
  split <;> rfl

/-- A message on the topic of a subscription is queued. -/
theorem contents_offer {s : Subscription} {topic : String} (h : s.topic = topic) (data : Bytes) :
    (s.offer topic data).handled ++ (s.offer topic data).queued
      = s.handled ++ s.queued ++ [data] := by
  rw [offer, if_pos h, List.append_assoc]

theorem handled_offer : (s.offer topic data).handled = s.handled := by
  rw [offer]
  split <;> rfl

end Subscription

/-! ## Topics -/

namespace Mailroom

/-- What is published, and on which topic, unless it is refused. -/
def published (m : Mailroom) (topic : String) (data : Bytes) : Option (String × Bytes) :=
  match m.publish topic data with
  | .ok _ => some (topic, data)
  | .error _ => none

theorem published_eq (m : Mailroom) (topic : String) (data : Bytes) :
    m.published topic data = if m.isOpen then some (topic, data) else none := by
  rw [published, publish]
  cases m.isOpen <;> rfl

/-- The places of the subscriptions to a topic. -/
def places (m : Mailroom) (topic : String) : List Nat :=
  (List.range m.subscriptions.length).filter fun i =>
    (m.subscriptions[i]?).any fun s => s.topic = topic

theorem mem_places {m : Mailroom} {topic : String} {i : Nat} :
    i ∈ m.places topic ↔ ∃ s, m.subscriptions[i]? = some s ∧ s.topic = topic := by
  rw [places, List.mem_filter, List.mem_range, Option.any_eq_true]
  simp only [decide_eq_true_iff]
  refine and_iff_right_of_imp ?_
  rintro ⟨s, there, -⟩
  exact (List.getElem?_eq_some_iff.mp there).1

theorem nodup_places (m : Mailroom) (topic : String) : (m.places topic).Nodup :=
  List.nodup_range.filter _

end Mailroom

/-! ## Offices -/

/-- A message that was taken. -/
structure Posting where
  /-- The topic it was published on. -/
  topic : String
  /-- The message. -/
  data : Bytes
  /-- The places of the subscriptions it has yet to reach, one after another. -/
  ahead : List Nat
  /-- The numbers of the messages that were on their way when it was taken. -/
  alongside : List Nat
deriving DecidableEq

/-- What was published, and on which topic. -/
def Posting.content (p : Posting) : String × Bytes := (p.topic, p.data)

/-- A mailroom with all messages it ever took. -/
structure Office where
  /-- The mailroom. -/
  room : Mailroom
  /-- The messages, numbered in the order in which they were taken. -/
  postings : List Posting

/-- What may happen in an office. -/
inductive Happening where
  /-- Somebody wants to subscribe to a topic. -/
  | subscribe (topic : String) (handler : Bytes → Except Fault Unit)
  /-- Somebody wants to publish a message. -/
  | publish (topic : String) (data : Bytes)
  /-- A message gets to the next subscription on its way. -/
  | hand (number : Nat)
  /-- The worker at a place hands over a message, and the handler makes something of it. -/
  | work (place : Nat) (outcome : Except Fault Unit)
  /-- Somebody wants to close the mailroom. -/
  | close

/-- The worker at a place gets to run. -/
def Happening.isWorkAt (place : Nat) : Happening → Bool
  | .work i _ => i == place
  | .subscribe .. | .publish .. | .hand _ | .close => false

namespace Office

/-- An open mailroom that nobody has used. -/
def start : Office := ⟨.empty, []⟩

variable (o : Office)

/-- The numbers of the messages that are on their way. -/
def underway : List Nat :=
  (List.range o.postings.length).filter fun k => (o.postings[k]?).any fun p => !p.ahead.isEmpty

/-- Some message is on its way. -/
def isBusy : Bool := !o.underway.isEmpty

/-- Changes the subscription at a place. -/
def atPlace (i : Nat) (f : Subscription → Subscription) : Office :=
  { o with room := { o.room with subscriptions := o.room.subscriptions.modify i f } }

/-- A message gets to the subscription at a place and has others ahead. -/
def passOn (number : Nat) (p : Posting) (i : Nat) (rest : List Nat) : Office :=
  { o.atPlace i (Subscription.offer p.topic p.data) with
    postings := o.postings.set number { p with ahead := rest } }

/-- A message gets to the next subscription on its way. -/
def hand (number : Nat) : Office :=
  match o.postings[number]? with
  | none => o
  | some p =>
    match p.ahead with
    | [] => o
    | i :: rest => o.passOn number p i rest

/-- Where a happening leads. What has to wait or is refused changes nothing. -/
def act : Happening → Office
  | .subscribe topic handler =>
    if o.isBusy then o
    else
      match o.room.subscribe topic handler with
      | .ok room => { o with room }
      | .error _ => o
  | .publish topic data =>
    match o.room.publish topic data with
    | .ok _ =>
      { o with postings := o.postings ++ [⟨topic, data, o.room.places topic, o.underway⟩] }
    | .error _ => o
  | .hand number => o.hand number
  | .work place outcome => o.atPlace place (Subscription.take outcome)
  | .close => if o.isBusy then o else { o with room := o.room.close }

/-- Where happenings lead. -/
def run (happenings : List Happening) : Office := happenings.foldl act o

/-- The message that is published, with its topic, if somebody publishes one that is not refused. -/
def accepts : Happening → Option (String × Bytes)
  | .publish topic data => o.room.published topic data
  | .subscribe .. | .hand _ | .work .. | .close => none

/-- The messages that are published while all this happens, in this order. -/
def accepted (o : Office) : List Happening → List (String × Bytes)
  | [] => []
  | e :: rest => (o.accepts e).toList ++ (o.act e).accepted rest

variable {o}

theorem run_append (before after : List Happening) :
    o.run (before ++ after) = (o.run before).run after := List.foldl_append ..

theorem mem_underway {k : Nat} :
    k ∈ o.underway ↔ ∃ p, o.postings[k]? = some p ∧ p.ahead ≠ [] := by
  rw [underway, List.mem_filter, List.mem_range, Option.any_eq_true]
  simp only [Bool.not_eq_true', List.isEmpty_eq_false_iff]
  refine and_iff_right_of_imp ?_
  rintro ⟨p, there, -⟩
  exact (List.getElem?_eq_some_iff.mp there).1

/-- No message is on its way. -/
theorem ahead_of_idle (idle : o.isBusy = false) {k : Nat} {p : Posting}
    (there : o.postings[k]? = some p) : p.ahead = [] := by
  rw [isBusy, Bool.not_eq_false', List.isEmpty_iff] at idle
  by_contra more
  have mem : k ∈ o.underway := mem_underway.mpr ⟨p, there, more⟩
  rw [idle] at mem
  cases mem

/-! ## What happenings do -/

theorem act_publish (topic : String) (data : Bytes) :
    o.act (.publish topic data) =
      if o.room.isOpen then
        { o with postings := o.postings ++ [⟨topic, data, o.room.places topic, o.underway⟩] }
      else o := by
  rw [act, Mailroom.publish]
  cases o.room.isOpen <;> rfl

/-- Subscribing takes no message. -/
theorem postings_subscribe (topic : String) (handler : Bytes → Except Fault Unit) :
    (o.act (.subscribe topic handler)).postings = o.postings := by
  rw [act]
  split
  · rfl
  · cases o.room.subscribe topic handler <;> rfl

/-- What a happening can do. -/
inductive Turn (o : Office) : Happening → Office → Prop where
  /-- It has to wait, or is refused, or there is nothing to do. -/
  | nothing {e : Happening} (notWork : ∀ place, e.isWorkAt place = false)
    (refused : o.accepts e = none) : Turn o e o
  /-- A subscription is added while no message is on its way. -/
  | subscribed {topic : String} {handler : Bytes → Except Fault Unit} (idle : o.isBusy = false)
    (taking : o.room.isOpen = true) :
    Turn o (.subscribe topic handler) { o with room := { o.room with
      subscriptions := o.room.subscriptions ++ [.fresh topic handler] } }
  /-- A message is taken. -/
  | taken {topic : String} {data : Bytes} (taking : o.room.isOpen = true) :
    Turn o (.publish topic data)
      { o with postings := o.postings ++ [⟨topic, data, o.room.places topic, o.underway⟩] }
  /-- A message gets to the next subscription on its way. -/
  | handed {number i : Nat} {p : Posting} {rest : List Nat}
    (there : o.postings[number]? = some p) (ahead : p.ahead = i :: rest) :
    Turn o (.hand number) (o.passOn number p i rest)
  /-- A worker gets to run. -/
  | worked {place : Nat} {outcome : Except Fault Unit} :
    Turn o (.work place outcome) (o.atPlace place (Subscription.take outcome))
  /-- The mailroom is closed while no message is on its way. -/
  | closed (idle : o.isBusy = false) : Turn o .close { o with room := o.room.close }

variable (o) in
/-- Every happening does one of these things. -/
theorem turn_act (e : Happening) : Turn o e (o.act e) := by
  cases e with
  | subscribe topic handler =>
    rw [act, Mailroom.subscribe]
    by_cases busy : o.isBusy = true
    · rw [if_pos busy]
      exact .nothing (fun _ => rfl) rfl
    · rw [if_neg busy]
      by_cases taking : o.room.isOpen = true
      · rw [if_pos taking]
        exact .subscribed (eq_false_of_ne_true busy) taking
      · rw [if_neg taking]
        exact .nothing (fun _ => rfl) rfl
  | publish topic data =>
    rw [act_publish]
    split
    · next taking => exact .taken taking
    · next refused =>
      exact .nothing (fun _ => rfl) ((o.room.published_eq ..).trans (if_neg refused))
  | hand number =>
    rw [act, hand]
    split
    · exact .nothing (fun _ => rfl) rfl
    · next there =>
      split
      · exact .nothing (fun _ => rfl) rfl
      · next ahead => exact .handed there ahead
  | work place outcome => exact .worked
  | close =>
    rw [act]
    split
    · exact .nothing (fun _ => rfl) rfl
    · next busy => exact .closed (eq_false_of_ne_true busy)

/-- A message is added if one is accepted, and no other changes. -/
theorem Turn.content {e : Happening} {o' : Office} (t : Turn o e o') :
    o'.postings.map Posting.content
      = o.postings.map Posting.content ++ (o.accepts e).toList := by
  cases t with
  | nothing _ refused =>
    rw [refused]
    exact (List.append_nil _).symm
  | @taken topic data taking =>
    have published : o.accepts (.publish topic data) = some (topic, data) := by
      rw [accepts, Mailroom.published_eq, if_pos taking]
    rw [published]
    exact List.map_append
  | @handed number i p rest there =>
    have same : (o.postings.map Posting.content)[number]? = some p.content := by
      rw [List.getElem?_map, there, Option.map_some]
    obtain ⟨lt, content⟩ := List.getElem?_eq_some_iff.mp same
    have unchanged : (o.postings.map Posting.content).set number p.content
        = o.postings.map Posting.content := by
      rw [← content, List.set_getElem_self]
    rw [passOn, List.map_set]
    exact unchanged.trans (List.append_nil _).symm
  | subscribed | worked | closed => exact (List.append_nil _).symm

/-- The messages of an office are those it accepted, in this order. -/
theorem content_run (happenings : List Happening) :
    (o.run happenings).postings.map Posting.content
      = o.postings.map Posting.content ++ o.accepted happenings := by
  induction happenings generalizing o with
  | nil => exact (List.append_nil _).symm
  | cons e rest ih =>
    rw [accepted, ← List.append_assoc, ← (o.turn_act e).content]
    exact ih

/-- The messages after one of them has got further. -/
theorem getElem?_passOn {number i : Nat} {p : Posting} {rest : List Nat}
    (here : o.postings[number]? = some p) (k : Nat) :
    (o.passOn number p i rest).postings[k]? =
      if number = k then some { p with ahead := rest } else o.postings[k]? := by
  obtain ⟨lt, -⟩ := List.getElem?_eq_some_iff.mp here
  rw [passOn, List.getElem?_set, if_pos lt]

theorem getElem?_atPlace {i j : Nat} {f : Subscription → Subscription} {s : Subscription}
    (there : o.room.subscriptions[j]? = some s) :
    (o.atPlace i f).room.subscriptions[j]? = some (if i = j then f s else s) := by
  rw [atPlace, List.getElem?_modify, there]
  rfl

end Office

end MarketStream.Bus
