import Mathlib.Data.List.Induction
import Mathlib.Data.List.Sort
import MarketStream.Proofs.Bus.Office

/-!
# What subscriptions get

Whatever happens in an office, each subscription gets every message that was taken on its topic
after it was added, once and unchanged, in the order in which they were taken as far as one was
taken after the other had reached everybody. What its handler makes of a message does not matter,
and what is queued is handed over sooner or later, also when the mailroom has been closed.

* `Sound`, `Sound.run` — how the messages on their way are related to each other;
* `Arrived`, `Arrived.run` — the order in which messages have come to a subscription;
* `Apart`, `Arrived.contents_eq` — if no two are on their way at once, that is the order of
  publishing;
* `Worked.run`, `Worked.handled` — what is queued is handed over;
* `refused_of_closed` — nothing is taken any more;
* `delivered_once_in_order` — what a subscription gets.
-/

namespace MarketStream.Bus.Office

variable {o : Office}

/-! ## Messages on their way -/

/-- Message `k` was on its way when message `j` was taken. -/
def Met (o : Office) (k j : Nat) : Prop := ∃ p, o.postings[j]? = some p ∧ k ∈ p.alongside

/-- How the messages on their way are related to the subscriptions and to each other. -/
structure Sound (o : Office) : Prop where
  /-- A message gets to each subscription once. -/
  once : ∀ {k : Nat} {p : Posting}, o.postings[k]? = some p → p.ahead.Nodup
  /-- It gets to those to its topic. -/
  topic : ∀ {k i : Nat} {p : Posting}, o.postings[k]? = some p → i ∈ p.ahead →
    ∃ s, o.room.subscriptions[i]? = some s ∧ s.topic = p.topic
  /-- If it is on its way, it was when any later message was taken. -/
  met : ∀ {k j : Nat} {p : Posting}, o.postings[k]? = some p → p.ahead ≠ [] → k < j →
    j < o.postings.length → o.Met k j

/-- The last message, or one of those before it. -/
theorem getElem?_concat_cases {postings : List Posting} {new p : Posting} {k : Nat}
    (there : (postings ++ [new])[k]? = some p) :
    postings[k]? = some p ∨ k = postings.length ∧ p = new := by
  rcases Nat.lt_trichotomy k postings.length with lt | rfl | gt
  · exact .inl ((List.getElem?_append_left lt).symm.trans there)
  · exact .inr ⟨rfl, (Option.some.inj (List.getElem?_concat_length.symm.trans there)).symm⟩
  · rw [List.getElem?_eq_none (by simp; omega)] at there
    cases there

section

variable {e : Happening} {o' : Office}

/-- A change of a subscription that leaves its topic leaves the topics. -/
theorem exists_topic_atPlace {f : Subscription → Subscription} (i : Nat)
    (keeps : ∀ s, (f s).topic = s.topic) {j : Nat} {topic : String}
    (h : ∃ s, o.room.subscriptions[j]? = some s ∧ s.topic = topic) :
    ∃ s, (o.atPlace i f).room.subscriptions[j]? = some s ∧ s.topic = topic := by
  obtain ⟨s, there, rfl⟩ := h
  refine ⟨_, getElem?_atPlace there, ?_⟩
  split
  · exact keeps s
  · rfl

/-- Which messages met stays as it is. -/
theorem Turn.met (t : Turn o e o') {k j : Nat} (h : o.Met k j) : o'.Met k j := by
  obtain ⟨p, there, mem⟩ := h
  cases t with
  | nothing | subscribed | worked | closed => exact ⟨p, there, mem⟩
  | taken =>
    obtain ⟨lt, -⟩ := List.getElem?_eq_some_iff.mp there
    exact ⟨p, (List.getElem?_append_left lt).trans there, mem⟩
  | @handed number i q rest here ahead =>
    by_cases same : number = j
    · subst same
      obtain rfl := Option.some.inj (here.symm.trans there)
      exact ⟨_, (getElem?_passOn here number).trans (if_pos rfl), mem⟩
    · exact ⟨p, (getElem?_passOn here j).trans ((if_neg same).trans there), mem⟩

/-- One happening. -/
theorem Sound.turn (h : o.Sound) (t : Turn o e o') : o'.Sound := by
  have met {k j : Nat} (m : o.Met k j) : o'.Met k j := t.met m
  cases t with
  | nothing => exact h
  | subscribed =>
    refine ⟨h.once, ?_, h.met⟩
    intro k i p there mem
    obtain ⟨s, subscribed, topic⟩ := h.topic there mem
    obtain ⟨lt, -⟩ := List.getElem?_eq_some_iff.mp subscribed
    exact ⟨s, (List.getElem?_append_left lt).trans subscribed, topic⟩
  | taken =>
    refine ⟨?_, ?_, ?_⟩
    · intro k p there
      rcases getElem?_concat_cases there with old | ⟨-, rfl⟩
      · exact h.once old
      · exact o.room.nodup_places _
    · intro k i p there mem
      rcases getElem?_concat_cases there with old | ⟨-, rfl⟩
      · exact h.topic old mem
      · exact Mailroom.mem_places.mp mem
    · intro k j p there onWay before lt
      rw [List.length_append, List.length_singleton] at lt
      rcases getElem?_concat_cases there with old | ⟨rfl, -⟩
      · rcases Nat.lt_or_eq_of_le (Nat.le_of_lt_succ lt) with lt | rfl
        · exact met (h.met old onWay before lt)
        · exact ⟨_, List.getElem?_concat_length, mem_underway.mpr ⟨p, old, onWay⟩⟩
      · omega
  | @handed number i q rest here ahead =>
    -- What is still ahead of a message was ahead of it before.
    have further {k : Nat} {p : Posting}
        (there : (o.passOn number q i rest).postings[k]? = some p) :
        ∃ p', o.postings[k]? = some p' ∧ p'.topic = p.topic ∧ p.ahead <:+ p'.ahead := by
      rw [getElem?_passOn here] at there
      split at there
      · next same =>
        obtain rfl := Option.some.inj there
        exact ⟨q, same ▸ here, rfl, ahead ▸ List.suffix_cons i rest⟩
      · exact ⟨p, there, rfl, List.suffix_refl _⟩
    refine ⟨?_, ?_, ?_⟩
    · intro k p there
      obtain ⟨p', old, -, suffix⟩ := further there
      exact (h.once old).sublist suffix.sublist
    · intro k j p there mem
      obtain ⟨p', old, topic, suffix⟩ := further there
      exact exists_topic_atPlace i (fun s => s.topic_offer q.topic q.data)
        (topic ▸ h.topic old (suffix.subset mem))
    · intro k j p there onWay before lt
      obtain ⟨p', old, -, suffix⟩ := further there
      have lt : j < o.postings.length := List.length_set ▸ lt
      exact met (h.met old (fun nil => onWay (List.suffix_nil.mp (nil ▸ suffix))) before lt)
  | @worked place outcome =>
    exact ⟨h.once, fun there mem => exists_topic_atPlace place
      (fun s => s.topic_take outcome) (h.topic there mem), h.met⟩
  | closed => exact ⟨h.once, h.topic, h.met⟩

end

theorem sound_start : Sound start where
  once there := by cases there
  topic there := by cases there
  met there := by cases there

theorem Sound.run (h : o.Sound) (happenings : List Happening) : (o.run happenings).Sound := by
  induction happenings generalizing o with
  | nil => exact h
  | cons e rest ih => exact ih (h.turn (o.turn_act e))

/-! ## Messages that have come -/

/-- A message on the topic has come to the subscription at a place. -/
def Reached (o : Office) (topic : String) (place k : Nat) : Prop :=
  ∃ p, o.postings[k]? = some p ∧ p.topic = topic ∧ place ∉ p.ahead

/-- The order in which messages have come to a subscription that was added after the first `since`
messages. -/
structure Arrived (o : Office) (since place : Nat) (s : Subscription) (order : List Nat) :
    Prop where
  /-- It is the subscription at this place. -/
  there : o.room.subscriptions[place]? = some s
  /-- Its handler had, and it has queued, these messages in this order, unchanged. -/
  contents : order.map (fun k => (o.postings[k]?).map Posting.data)
    = (s.handled ++ s.queued).map some
  /-- Each of them came once. -/
  once : order.Nodup
  /-- They are the messages on its topic that were taken after it was added and have come to it. -/
  exactly : ∀ k, k ∈ order ↔ since ≤ k ∧ o.Reached s.topic place k
  /-- One that was taken later came later, unless the other was still on its way. -/
  inTurn : order.Pairwise fun j k => j < k ∨ o.Met k j
  /-- It was added after as many messages. -/
  since_le : since ≤ o.postings.length
  /-- None of them is on its way. -/
  settled : ∀ k < since, ∀ p, o.postings[k]? = some p → p.ahead = []

/-- A subscription that is added has had nothing. -/
theorem arrived_subscribed (idle : o.isBusy = false) (taking : o.room.isOpen = true)
    (topic : String) (handler : Bytes → Except Fault Unit) :
    Arrived (o.act (.subscribe topic handler)) o.postings.length o.room.subscriptions.length
      (.fresh topic handler) [] := by
  have after : o.act (.subscribe topic handler) = { o with room := { o.room with
      subscriptions := o.room.subscriptions ++ [.fresh topic handler] } } := by
    rw [act, idle, Mailroom.subscribe, if_pos taking]
    rfl
  rw [after]
  refine ⟨List.getElem?_concat_length, rfl, List.nodup_nil, ?_, .nil, Nat.le_refl _, ?_⟩
  · intro k
    refine iff_of_false List.not_mem_nil ?_
    rintro ⟨past, p, there, -⟩
    exact absurd (List.getElem?_eq_some_iff.mp there).1 (Nat.not_lt.mpr past)
  · intro k _ p there
    exact ahead_of_idle idle there

namespace Arrived

variable {since place : Nat} {s : Subscription} {order : List Nat} {e : Happening} {o' : Office}

/-- A change of the room that leaves what has come to the subscription. -/
theorem withRoom (h : Arrived o since place s order) {room : Mailroom} {s' : Subscription}
    (there : room.subscriptions[place]? = some s')
    (contents : s'.handled ++ s'.queued = s.handled ++ s.queued) (topic : s'.topic = s.topic) :
    Arrived ⟨room, o.postings⟩ since place s' order := by
  refine ⟨there, contents ▸ h.contents, h.once, ?_, h.inTurn, h.since_le, h.settled⟩
  rw [topic]
  exact h.exactly

/-- A message that is taken has not come to any subscription to its topic. -/
theorem taken (h : Arrived o since place s order) {topic : String} {data : Bytes}
    (taking : o.room.isOpen = true) :
    Arrived { o with postings := o.postings ++ [⟨topic, data, o.room.places topic, o.underway⟩] }
      since place s order := by
  have old {k : Nat} (mem : k ∈ order) : k < o.postings.length := by
    obtain ⟨-, p, there, -⟩ := (h.exactly k).mp mem
    exact (List.getElem?_eq_some_iff.mp there).1
  refine ⟨h.there, ?_, h.once, ?_, ?_, ?_, ?_⟩
  · rw [← h.contents]
    refine List.map_congr_left fun k mem => ?_
    rw [List.getElem?_append_left (old mem)]
  · intro k
    rw [h.exactly]
    refine and_congr_right fun _ => ⟨?_, ?_⟩
    · rintro ⟨p, there, reached⟩
      have lt := (List.getElem?_eq_some_iff.mp there).1
      exact ⟨p, (List.getElem?_append_left lt).trans there, reached⟩
    · rintro ⟨p, there, same, reached⟩
      rcases getElem?_concat_cases there with there | ⟨-, rfl⟩
      · exact ⟨p, there, same, reached⟩
      · exact absurd (Mailroom.mem_places.mpr ⟨s, h.there, same.symm⟩) reached
  · exact h.inTurn.imp (Or.imp_right (Turn.taken taking).met)
  · rw [List.length_append]
    exact Nat.le_add_right_of_le h.since_le
  · intro k before p there
    rcases getElem?_concat_cases there with there | ⟨rfl, -⟩
    · exact h.settled k before p there
    · exact absurd h.since_le (Nat.not_le.mpr before)

section

variable {number i : Nat} {p : Posting} {rest : List Nat}

/-- A message that gets further is not from before the subscription was added. -/
theorem since_le_of_ahead (h : Arrived o since place s order)
    (here : o.postings[number]? = some p) (ahead : p.ahead = i :: rest) : since ≤ number := by
  by_contra before
  have none_ahead := h.settled number (Nat.not_le.mp before) p here
  rw [ahead] at none_ahead
  cases none_ahead

/-- A message that gets further does not change. -/
theorem data_passOn (here : o.postings[number]? = some p) (k : Nat) :
    ((o.passOn number p i rest).postings[k]?).map Posting.data
      = (o.postings[k]?).map Posting.data := by
  rw [getElem?_passOn here]
  split
  · next same => rw [← same, here, Option.map_some, Option.map_some]
  · rfl

/-- Nothing but the message that gets further can have come to a place only now. -/
theorem reached_passOn (here : o.postings[number]? = some p) (ahead : p.ahead = i :: rest)
    {topic : String} {k : Nat} (other : k = number → i ≠ place) :
    (o.passOn number p i rest).Reached topic place k ↔ o.Reached topic place k := by
  rw [Reached, Reached, getElem?_passOn here]
  by_cases same : number = k
  · have further : place ∉ rest ↔ place ∉ p.ahead := by
      rw [ahead, List.mem_cons, not_or, and_iff_right (other same.symm).symm]
    rw [if_pos same, ← same, here]
    simp [further]
  · rw [if_neg same]

theorem settled_passOn (h : Arrived o since place s order)
    (here : o.postings[number]? = some p) (ahead : p.ahead = i :: rest) :
    ∀ k < since, ∀ q, (o.passOn number p i rest).postings[k]? = some q → q.ahead = [] := by
  intro k before q there
  have later := h.since_le_of_ahead here ahead
  rw [getElem?_passOn here, if_neg (Nat.ne_of_gt (Nat.lt_of_lt_of_le before later))] at there
  exact h.settled k before q there

theorem since_le_passOn (h : Arrived o since place s order) :
    since ≤ (o.passOn number p i rest).postings.length := by
  rw [passOn, List.length_set]
  exact h.since_le

/-- A message gets to another subscription. -/
theorem passOn_elsewhere (h : Arrived o since place s order)
    (here : o.postings[number]? = some p) (ahead : p.ahead = i :: rest) (other : i ≠ place) :
    Arrived (o.passOn number p i rest) since place s order where
  there := (getElem?_atPlace h.there).trans (congrArg some (if_neg other))
  contents := by rw [List.map_congr_left fun k _ => data_passOn here k, h.contents]
  once := h.once
  exactly k := by rw [h.exactly, reached_passOn here ahead fun _ => other]
  inTurn := h.inTurn.imp (Or.imp_right (Turn.handed here ahead).met)
  since_le := h.since_le_passOn
  settled := h.settled_passOn here ahead

/-- A message gets to the subscription. -/
theorem passOn_here (h : Arrived o since place s order) (sound : o.Sound)
    (here : o.postings[number]? = some p) (ahead : p.ahead = place :: rest)
    (topic : s.topic = p.topic) :
    Arrived (o.passOn number p place rest) since place (s.offer p.topic p.data)
      (order ++ [number]) := by
  have new : number ∉ order := by
    intro mem
    obtain ⟨-, q, there, -, gone⟩ := (h.exactly number).mp mem
    obtain rfl := Option.some.inj (here.symm.trans there)
    exact gone (ahead ▸ List.mem_cons_self)
  have met {k j : Nat} (m : o.Met k j) := (Turn.handed here ahead).met m
  refine ⟨?_, ?_, ?_, ?_, ?_, h.since_le_passOn, h.settled_passOn here ahead⟩
  · exact (getElem?_atPlace h.there).trans (congrArg some (if_pos rfl))
  · have last : (o.postings[number]?).map Posting.data = some p.data := by
      rw [here, Option.map_some]
    rw [List.map_congr_left fun k _ => data_passOn here k, List.map_append, h.contents,
      List.map_singleton, last, Subscription.contents_offer topic]
    show List.map some (s.handled ++ s.queued) ++ List.map some [p.data] = _
    exact List.map_append.symm
  · exact List.concat_eq_append ▸ h.once.concat new
  · intro k
    rw [s.topic_offer, List.mem_append, List.mem_singleton, h.exactly]
    by_cases last : k = number
    · subst last
      have arrived : place ∉ rest := (List.nodup_cons.mp (ahead ▸ sound.once here)).1
      exact iff_of_true (.inr rfl) ⟨h.since_le_of_ahead here ahead, _,
        (getElem?_passOn here k).trans (if_pos rfl), topic.symm, arrived⟩
    · rw [or_iff_left last, reached_passOn here ahead fun eq => absurd eq last]
  -- A message that came before was taken before, or while this one was on its way.
  · refine List.pairwise_append.mpr
      ⟨h.inTurn.imp (Or.imp_right met), List.pairwise_singleton .., ?_⟩
    intro j mem k last
    obtain rfl := List.mem_singleton.mp last
    obtain ⟨-, q, there, -⟩ := (h.exactly j).mp mem
    have lt := (List.getElem?_eq_some_iff.mp there).1
    have onWay : p.ahead ≠ [] := ahead ▸ List.cons_ne_nil place rest
    rcases Nat.lt_trichotomy j k with before | rfl | later
    · exact .inl before
    · exact absurd mem new
    · exact .inr (met (sound.met here onWay later lt))

end

/-- One happening. -/
theorem turn (h : Arrived o since place s order) (sound : o.Sound) (t : Turn o e o') :
    ∃ s' order', Arrived o' since place s' order' ∧ s'.topic = s.topic ∧
      s'.handler = s.handler := by
  cases t with
  | nothing => exact ⟨s, order, h, rfl, rfl⟩
  | subscribed =>
    have lt := (List.getElem?_eq_some_iff.mp h.there).1
    exact ⟨s, order, h.withRoom ((List.getElem?_append_left lt).trans h.there) rfl rfl, rfl, rfl⟩
  | taken taking => exact ⟨s, order, h.taken taking, rfl, rfl⟩
  | @handed number i p rest here ahead =>
    by_cases same : i = place
    · subst same
      obtain ⟨s', there, topic⟩ := sound.topic here (ahead ▸ List.mem_cons_self)
      obtain rfl := Option.some.inj (there.symm.trans h.there)
      exact ⟨_, _, h.passOn_here sound here ahead topic, s'.topic_offer .., s'.handler_offer ..⟩
    · exact ⟨s, order, h.passOn_elsewhere here ahead same, rfl, rfl⟩
  | @worked i outcome =>
    have there := getElem?_atPlace (i := i) (f := Subscription.take outcome) h.there
    by_cases same : i = place
    · rw [if_pos same] at there
      exact ⟨s.take outcome, order,
        h.withRoom there (s.contents_take outcome) (s.topic_take outcome),
        s.topic_take outcome, s.handler_take outcome⟩
    · rw [if_neg same] at there
      exact ⟨s, order, h.withRoom there rfl rfl, rfl, rfl⟩
  | closed => exact ⟨s, order, h.withRoom h.there rfl rfl, rfl, rfl⟩

/-- Any number of happenings. -/
theorem run (h : Arrived o since place s order) (sound : o.Sound) (happenings : List Happening) :
    ∃ s' order', Arrived (o.run happenings) since place s' order' ∧ s'.topic = s.topic ∧
      s'.handler = s.handler := by
  induction happenings generalizing o s order with
  | nil => exact ⟨s, order, h, rfl, rfl⟩
  | cons e rest ih =>
    have turn := o.turn_act e
    obtain ⟨s₁, order₁, h₁, topic₁, handler₁⟩ := h.turn sound turn
    obtain ⟨s', order', h', topic, handler⟩ := ih h₁ (sound.turn turn)
    exact ⟨s', order', h', topic.trans topic₁, handler.trans handler₁⟩

end Arrived

/-! ## One after another -/

/-- The elements of a list from a place on that have a property, by their places. -/
theorem map_getElem?_range_filter {α : Type} (l : List α) (n : Nat) (p : α → Bool) :
    ((List.range l.length).filter fun k => decide (n ≤ k) && (l[k]?).any p).map (l[·]?)
      = ((l.drop n).filter p).map some := by
  induction l using List.reverseRecOn with
  | nil => simp
  | append_singleton l a ih =>
    have before {k : Nat} (lt : k < l.length) : (l ++ [a])[k]? = l[k]? :=
      List.getElem?_append_left lt
    have first : ((List.range l.length).filter fun k =>
          decide (n ≤ k) && ((l ++ [a])[k]?).any p).map ((l ++ [a])[·]?)
        = ((l.drop n).filter p).map some := by
      rw [← ih, List.filter_congr fun k mem => by rw [before (List.mem_range.mp mem)]]
      exact List.map_congr_left fun k mem =>
        before (List.mem_range.mp (List.mem_of_mem_filter mem))
    rw [List.length_append, List.length_singleton, List.range_succ, List.filter_append,
      List.map_append, first]
    by_cases past : n ≤ l.length
    · have last : ([l.length].filter fun k => decide (n ≤ k) && ((l ++ [a])[k]?).any p).map
          ((l ++ [a])[·]?) = ([a].filter p).map some := by
        cases holds : p a <;> simp [past, holds]
      rw [last, List.drop_append_of_le_length past, List.filter_append, List.map_append]
    · have late : (l ++ [a]).length ≤ n := by
        rw [List.length_append, List.length_singleton]
        omega
      rw [List.drop_eq_nil_of_le late, List.drop_eq_nil_of_le (Nat.le_of_not_le past)]
      simp [past]

/-- No two of the messages on a topic, from number `since` on, were on their way at once. -/
def Apart (o : Office) (since : Nat) (topic : String) : Prop :=
  ∀ {k j : Nat} {p q : Posting}, since ≤ k → o.postings[k]? = some p → o.postings[j]? = some q →
    p.topic = topic → q.topic = topic → k ∉ q.alongside

/-- Messages that were never on their way at once come to a subscription in the order in which they
were taken. -/
theorem Arrived.contents_eq {since place : Nat} {s : Subscription} {order : List Nat}
    (h : Arrived o since place s order)
    (apart : o.Apart since s.topic) :
    s.handled ++ s.queued = ((o.postings.drop since).filter fun p =>
      p.topic = s.topic ∧ place ∉ p.ahead).map Posting.data := by
  have ascending : order.Pairwise (· < ·) := by
    refine h.inTurn.imp_of_mem fun {j k} mem mem' turn => turn.resolve_right ?_
    rintro ⟨q, there, met⟩
    obtain ⟨-, q', here, topic, -⟩ := (h.exactly j).mp mem
    obtain ⟨past, p, before, topic', -⟩ := (h.exactly k).mp mem'
    obtain rfl := Option.some.inj (there.symm.trans here)
    exact apart past before there topic' topic met
  have numbers : order = (List.range o.postings.length).filter fun k => decide (since ≤ k) &&
      (o.postings[k]?).any fun p => p.topic = s.topic ∧ place ∉ p.ahead := by
    refine ascending.eq_of_mem_iff (List.pairwise_lt_range.filter _) fun k => ?_
    rw [h.exactly, List.mem_filter, List.mem_range, Bool.and_eq_true, decide_eq_true_iff,
      Option.any_eq_true]
    simp only [decide_eq_true_iff]
    refine (and_iff_right_of_imp ?_).symm
    rintro ⟨-, p, there, -⟩
    exact (List.getElem?_eq_some_iff.mp there).1
  have found := congrArg (List.map (Option.map Posting.data)) (map_getElem?_range_filter o.postings
    since fun p => p.topic = s.topic ∧ place ∉ p.ahead)
  rw [← numbers, List.map_map, List.map_map] at found
  refine List.map_injective_iff.mpr (Option.some_injective Bytes) ?_
  rw [← h.contents, List.map_map]
  exact found

/-! ## Workers -/

/-- What a subscription can have come to while its worker got to run a number of times. -/
structure Worked (s : Subscription) (runs : Nat) (s' : Subscription) : Prop where
  /-- Whatever it had or was queued for it still comes first. -/
  kept : s.handled ++ s.queued <+: s'.handled ++ s'.queued
  /-- Its handler has had as many more messages, or all there were. -/
  handed : min (s.handled.length + runs) (s.handled ++ s.queued).length ≤ s'.handled.length

namespace Worked

variable {s s₁ s' : Subscription} {place runs more : Nat} {e : Happening} {o' : Office}

theorem refl (s : Subscription) : Worked s 0 s :=
  ⟨List.prefix_refl _, Nat.min_le_left ..⟩

theorem trans (h : Worked s runs s₁) (h' : Worked s₁ more s') : Worked s (runs + more) s' := by
  refine ⟨h.kept.trans h'.kept, ?_⟩
  have longer := h.kept.length_le
  have first := h.handed
  have later := h'.handed
  omega

/-- If the worker got to run as often as there were messages queued, they have been handed over. -/
theorem handled (h : Worked s runs s') (enough : s.queued.length ≤ runs) :
    s.handled ++ s.queued <+: s'.handled := by
  refine List.prefix_of_prefix_length_le h.kept (List.prefix_append ..) ?_
  have handed := h.handed
  rw [List.length_append] at handed ⊢
  omega

theorem offer (s : Subscription) (topic : String) (data : Bytes) :
    Worked s 0 (s.offer topic data) := by
  refine ⟨?_, ?_⟩
  · by_cases own : s.topic = topic
    · rw [Subscription.contents_offer own]
      exact List.prefix_append ..
    · have same : s.offer topic data = s := if_neg own
      exact same.symm ▸ List.prefix_refl _
  · rw [s.handled_offer]
    exact Nat.min_le_left ..

/-- What a happening does to a subscription. -/
theorem turn (t : Turn o e o') (there : o.room.subscriptions[place]? = some s) :
    ∃ s', o'.room.subscriptions[place]? = some s' ∧
      Worked s (if e.isWorkAt place then 1 else 0) s' := by
  cases t with
  | nothing notWork _ =>
    rw [notWork]
    exact ⟨s, there, refl s⟩
  | subscribed =>
    have lt := (List.getElem?_eq_some_iff.mp there).1
    exact ⟨s, (List.getElem?_append_left lt).trans there, refl s⟩
  | taken | closed => exact ⟨s, there, refl s⟩
  | @handed number i p rest =>
    refine ⟨_, getElem?_atPlace there, ?_⟩
    show Worked s 0 _
    split
    · exact offer s p.topic p.data
    · exact refl s
  | @worked i outcome =>
    refine ⟨_, getElem?_atPlace there, ?_⟩
    rw [Happening.isWorkAt]
    by_cases here : i = place
    · rw [if_pos here, if_pos (beq_iff_eq.mpr here)]
      exact ⟨s.contents_take outcome ▸ List.prefix_refl _,
        Nat.le_of_eq (s.length_handled_take outcome).symm⟩
    · rw [if_neg here, if_neg (by simpa using here)]
      exact refl s

theorem run (there : o.room.subscriptions[place]? = some s) (happenings : List Happening) :
    ∃ s', (o.run happenings).room.subscriptions[place]? = some s' ∧
      Worked s (happenings.countP (Happening.isWorkAt place)) s' := by
  induction happenings generalizing o s with
  | nil => exact ⟨s, there, refl s⟩
  | cons e rest ih =>
    obtain ⟨s₁, there₁, first⟩ := turn (o.turn_act e) there
    obtain ⟨s', there', later⟩ := ih there₁
    refine ⟨s', there', ?_⟩
    rw [List.countP_cons, Nat.add_comm]
    exact first.trans later

end Worked

/-! ## Closing -/

/-- A mailroom that is closed stays closed. -/
theorem Turn.isOpen_eq_false {e : Happening} {o' : Office} (t : Turn o e o')
    (h : o.room.isOpen = false) : o'.room.isOpen = false := by
  cases t with
  | nothing | subscribed | taken | handed | worked => exact h
  | closed => rfl

theorem isOpen_run (h : o.room.isOpen = false) (happenings : List Happening) :
    (o.run happenings).room.isOpen = false := by
  induction happenings generalizing o with
  | nil => exact h
  | cons e rest ih => exact ih ((o.turn_act e).isOpen_eq_false h)

/-- Once closed, the mailroom takes no message and no subscription any more. -/
theorem refused_of_closed (idle : o.isBusy = false) (later : List Happening) :
    let closed := (o.act .close).run later
    (∀ topic data, closed.room.publish topic data = .error .closed) ∧
      ∀ topic handler, closed.room.subscribe topic handler = .error .closed := by
  intro closed
  have down : closed.room.isOpen = false := by
    refine isOpen_run ?_ later
    rw [act, idle]
    rfl
  have notUp : ¬ closed.room.isOpen = true := by
    rw [down]
    exact Bool.false_ne_true
  exact ⟨fun topic data => if_neg notUp, fun topic handler => if_neg notUp⟩

/-! ## What a subscription gets -/

/-- **Each message once, in order.** A subscription is added to an open mailroom; anything may have
happened before, and anything happens afterwards. The messages that are taken meanwhile are those
whose publishing succeeds. The messages its handler has had, followed by those queued for it, are
the ones on its topic that have come to it, each once and unchanged, and one that was taken later
comes later unless the other was still on its way (`Arrived`). If no two of them were on their way
at once, they come in the order in which they were taken. What is queued is handed over as soon as
the worker has got to run often enough, whatever handlers make of messages and whatever else
happens. When the mailroom has been closed, every attempt to publish or to subscribe fails. -/
theorem delivered_once_in_order (before after : List Happening) (topic : String)
    (handler : Bytes → Except Fault Unit) (idle : (start.run before).isBusy = false)
    (taking : (start.run before).room.isOpen = true) :
    let since := (start.run before).postings.length
    let place := (start.run before).room.subscriptions.length
    let o := start.run (before ++ .subscribe topic handler :: after)
    (o.postings.drop since).map Posting.content
        = ((start.run before).act (.subscribe topic handler)).accepted after ∧
    ∃ s order, s.topic = topic ∧ s.handler = handler ∧ Arrived o since place s order ∧
      (o.Apart since topic →
        s.handled ++ s.queued = ((o.postings.drop since).filter fun p =>
          p.topic = topic ∧ place ∉ p.ahead).map Posting.data) ∧
      (∀ later, s.queued.length ≤ later.countP (Happening.isWorkAt place) →
        ∃ s', (o.run later).room.subscriptions[place]? = some s' ∧
          s.handled ++ s.queued <+: s'.handled) ∧
      (o.isBusy = false → ∀ later, let closed := (o.act .close).run later
        (∀ topic data, closed.room.publish topic data = .error .closed) ∧
          ∀ topic handler, closed.room.subscribe topic handler = .error .closed) := by
  intro since place o
  have added := arrived_subscribed idle taking topic handler
  have sound : ((start.run before).act (.subscribe topic handler)).Sound :=
    (sound_start.run before).turn (turn_act _ _)
  obtain ⟨s, order, arrived, sameTopic, sameHandler⟩ := added.run sound after
  have reached : ((start.run before).act (.subscribe topic handler)).run after = o :=
    (@run_append start before (.subscribe topic handler :: after)).symm
  rw [reached] at arrived
  refine ⟨?_, s, order, sameTopic, sameHandler, arrived, ?_, ?_, fun idle => refused_of_closed idle⟩
  · have all := @content_run ((start.run before).act (.subscribe topic handler)) after
    rw [reached, postings_subscribe] at all
    have earlier : ((start.run before).postings.map Posting.content).length = since :=
      List.length_map ..
    rw [List.map_drop, all, List.drop_left' earlier]
  · intro apart
    rw [arrived.contents_eq (sameTopic.symm ▸ apart), sameTopic]
    rfl
  · intro later enough
    obtain ⟨s', there, worked⟩ := Worked.run arrived.there later
    exact ⟨s', there, worked.handled enough⟩

/-- A handler that takes everything, as a sample. -/
def willing : Bytes → Except Fault Unit := fun _ => .ok ()

/-- What may happen, as a sample: two messages are on their way at once, and the later one comes to
place 0 first; closing has to wait; the handler at place 0 fails; the mailroom is closed. -/
def crossing : List Happening :=
  [.subscribe "b" willing, .subscribe "a" willing, .publish "a" [1], .publish "b" [2],
    .publish "a" [3], .hand 3, .hand 1, .close, .work 0 (.error .closed), .hand 1, .hand 2, .hand 3,
    .close, .publish "a" [4]]

/-- A mailroom that had taken a message before, and in which all this has happened to a subscription
at place 0. Its two messages have crossed, and both get to its handler. -/
theorem delivered_once_in_order_sample :
    (start.run [.publish "a" [0]]).isBusy = false ∧
      (start.run [.publish "a" [0]]).room.isOpen = true ∧
      ∃ s order,
        Arrived (start.run ([.publish "a" [0]] ++ .subscribe "a" willing :: crossing)) 1 0 s order ∧
        s.handled = [[3]] ∧ s.queued = [[1]] ∧
        ∃ s', ((start.run ([.publish "a" [0]] ++ .subscribe "a" willing :: crossing)).run
          [.work 1 (.ok ()), .work 0 (.ok ())]).room.subscriptions[0]? = some s' ∧
          [[3], [1]] <+: s'.handled := by
  have idle : (start.run [.publish "a" [0]]).isBusy = false := by decide +kernel
  have taking : (start.run [.publish "a" [0]]).room.isOpen = true := by decide +kernel
  have since : (start.run [.publish "a" [0]]).postings.length = 1 := by decide +kernel
  have place : (start.run [.publish "a" [0]]).room.subscriptions.length = 0 := by decide +kernel
  have gets := delivered_once_in_order [.publish "a" [0]] crossing "a" willing idle taking
  rw [since, place] at gets
  obtain ⟨-, s, order, -, -, arrived, -, worked, -⟩ := gets
  have handled : ((start.run ([.publish "a" [0]] ++
      .subscribe "a" willing :: crossing)).room.subscriptions[0]?).map Subscription.handled
        = some [[3]] := by decide +kernel
  have queued : ((start.run ([.publish "a" [0]] ++
      .subscribe "a" willing :: crossing)).room.subscriptions[0]?).map Subscription.queued
        = some [[1]] := by decide +kernel
  rw [arrived.there, Option.map_some, Option.some.injEq] at handled queued
  have enough : s.queued.length ≤ List.countP (Happening.isWorkAt 0)
      [.work 1 (.ok ()), .work 0 (.ok ())] := by
    rw [queued]
    decide
  obtain ⟨s', there, kept⟩ := worked _ enough
  rw [handled, queued] at kept
  exact ⟨idle, taking, s, order, arrived, handled, queued, s', there, kept⟩

end MarketStream.Bus.Office
