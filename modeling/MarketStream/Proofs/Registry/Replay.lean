import Mathlib.Data.List.Induction
import MarketStream.Proofs.Registry.Requests

/-!
# What is repeated when the public channel comes up

Whatever happens to an aggregator, its registry is what a reader of the history of its subscriptions
would write down: those that were added and not dropped since, in the order in which they were added.
A line that comes up on the public channel gets their commands, and nothing else is repeated.

* `Happening` — what can happen to an aggregator; `Aggregator.after` — what comes of it;
* `Change`, `history` — what happened to subscriptions; `standing` — those that stand;
* `Registry.Records` — a registry agrees with a history;
* `registry_replayed_on_connect` — the registry, requests and lines after any run.
-/

namespace MarketStream

/-! ## What happens -/

/-- What can happen to an aggregator. -/
inductive Happening where
  /-- A stream is asked for. -/
  | subscribe (key : StreamKey)
  /-- A subscription is dropped. -/
  | unsubscribe (id : String)
  /-- A bare command is registered. -/
  | add (c : Command)
  /-- A channel comes up with a line. -/
  | connect (now : Moment) (channel : Channel) (n : Nat)
  /-- A channel brings a frame. -/
  | frame (now : Moment) (channel : Channel) (f : Frame)
  /-- A channel fails. -/
  | error (now : Moment) (channel : Channel) (fault : Fault)
  /-- Lines are laid, emptied and hung up by others. -/
  | rewire (board : Link.Switchboard)

namespace Aggregator

/-- An aggregator after something happened. -/
def take (a : Aggregator) : Happening → Aggregator
  | .subscribe key => (a.subscribe key).1
  | .unsubscribe id => (a.unsubscribe id).1
  | .add c => (a.add c).1
  | .connect now channel n => a.onConnect now channel n
  | .frame now channel f => (a.onFrame now channel f).1
  | .error now channel fault => a.onError now channel fault
  | .rewire board => { a with board }

/-- A new aggregator after all that happened. -/
def after (settings : Settings) (ids : Nat → String) (happenings : List Happening) : Aggregator :=
  happenings.foldl take (fresh settings ids)

end Aggregator

/-! ## Histories of subscriptions -/

/-- What happens to subscriptions. -/
inductive Change where
  /-- One is added. -/
  | added (s : Subscription)
  /-- The one with an id is dropped. -/
  | dropped (id : String)
deriving DecidableEq

/-- The subscriptions that stand: those added and not dropped since. -/
def standing : List Change → List Subscription
  | [] => []
  | .added s :: later => if .dropped s.id ∈ later then standing later else s :: standing later
  | .dropped _ :: later => standing later

namespace Change

/-- Whether a subscription is added. -/
def isAdded : Change → Bool
  | .added _ => true
  | .dropped _ => false

/-- The id of the next subscription. -/
def nextId (ids : Nat → String) (past : List Change) : String :=
  ids (past.countP isAdded + 1)

/-- What a happening changes. A stream is added only if its command can be built and it does not
stand already. -/
def ofHappening (ids : Nat → String) (past : List Change) : Happening → List Change
  | .subscribe key =>
    match key.normalized.command "subscribe" with
    | .error _ => []
    | .ok c =>
      if some key.normalized ∈ (standing past).map Subscription.key then []
      else [.added ⟨nextId ids past, some key.normalized, c⟩]
  | .unsubscribe id => [.dropped id]
  | .add c => [.added ⟨nextId ids past, none, c⟩]
  | .connect .. | .frame .. | .error .. | .rewire _ => []

end Change

/-- All that happened to subscriptions, oldest first. -/
def history (ids : Nat → String) (happenings : List Happening) : List Change :=
  happenings.foldl (fun past h => past ++ Change.ofHappening ids past h) []

theorem standing_added (past : List Change) (s : Subscription) :
    standing (past ++ [.added s]) = standing past ++ [s] := by
  induction past with
  | nil => rfl
  | cons change later ih =>
    cases change with
    | dropped id => exact ih
    | added t =>
      have same : Change.dropped t.id ∈ later ++ [.added s] ↔ Change.dropped t.id ∈ later := by simp
      rw [List.cons_append, standing, standing, ih]
      simp only [same]
      split <;> rfl

theorem standing_dropped (past : List Change) (id : String) :
    standing (past ++ [.dropped id]) = (standing past).filter fun s => s.id != id := by
  induction past with
  | nil => rfl
  | cons change later ih =>
    cases change with
    | dropped other => exact ih
    | added t =>
      rw [List.cons_append, standing, standing, ih]
      by_cases before : Change.dropped t.id ∈ later
      · rw [if_pos before, if_pos (List.mem_append_left _ before)]
      · by_cases now : t.id = id
        · rw [if_neg before, if_pos (by simp [now]), List.filter_cons_of_neg (by simp [now])]
        · rw [if_neg before, if_neg (by simp [before, now]),
            List.filter_cons_of_pos (by simp [now])]

/-! ## Registries and their histories -/

/-- A registry agrees with the history of its subscriptions. -/
structure Registry.Records (ids : Nat → String) (past : List Change) (r : Registry) : Prop where
  /-- Ids are taken from the supply. -/
  ids : r.ids = ids
  /-- Ids are counted. -/
  issued : r.issued = past.countP Change.isAdded
  /-- The entries are the subscriptions that stand. -/
  entries : r.subscriptions = standing past
  /-- The entries are in order. -/
  orderly : r.Orderly

namespace Registry.Records

variable {ids : Nat → String} {past : List Change} {r : Registry}

theorem nextId (h : r.Records ids past) : r.ids (r.issued + 1) = Change.nextId ids past := by
  rw [h.ids, h.issued, Change.nextId]

theorem register (h : r.Records ids past) {key : Option StreamKey} {c : Command}
    (new : ∀ k, key = some k → r.find? k = none)
    (own : ∀ k, key = some k → k.normalized = k ∧ k.command "subscribe" = .ok c) :
    (r.register key c).1.Records ids (past ++ [.added ⟨Change.nextId ids past, key, c⟩]) where
  ids := h.ids
  issued := by
    show r.issued + 1 = _
    rw [h.issued, List.countP_append]
    rfl
  entries := by
    show r.subscriptions ++ [_] = _
    rw [standing_added, h.entries, h.nextId]
  orderly := h.orderly.register new own

/-- A stream is looked for among the subscriptions that stand. -/
theorem find?_eq_none_iff (h : r.Records ids past) (key : StreamKey) :
    r.find? key = none ↔ some key ∉ (standing past).map Subscription.key := by
  rw [find?_eq_none, ← h.entries, List.mem_map]
  exact ⟨fun none ⟨s, hs, eq⟩ => none s hs eq, fun none s hs eq => none ⟨s, hs, eq⟩⟩

theorem enrol (h : r.Records ids past) {key : StreamKey} {c : Command}
    (normal : key.normalized = key) (built : key.command "subscribe" = .ok c) :
    (r.enrol key c).1.Records ids
      (past ++ if some key ∈ (standing past).map Subscription.key then []
        else [.added ⟨Change.nextId ids past, some key, c⟩]) := by
  cases found : r.find? key with
  | some s =>
    obtain ⟨hs, own⟩ := find?_eq_some found
    have there : some key ∈ (standing past).map Subscription.key :=
      List.mem_map.mpr ⟨s, h.entries ▸ hs, own⟩
    rw [enrol_of_some found, if_pos there, List.append_nil]
    exact h
  | none =>
    rw [enrol_of_none found, if_neg ((h.find?_eq_none_iff key).mp found)]
    refine h.register (fun k eq => ?_) fun k eq => ?_
    · exact Option.some.inj eq ▸ found
    · exact Option.some.inj eq ▸ ⟨normal, built⟩

theorem without (h : r.Records ids past) (id : String) :
    (r.without id).Records ids (past ++ [.dropped id]) where
  ids := h.ids
  issued := by
    show r.issued = _
    rw [h.issued, List.countP_append]
    rfl
  entries := by
    rw [standing_dropped, ← h.entries]
    rfl
  orderly := h.orderly.without id

variable {a : Aggregator}

theorem subscribe (h : a.registry.Records ids past) (key : StreamKey) :
    (a.subscribe key).1.registry.Records ids
      (past ++ Change.ofHappening ids past (.subscribe key)) := by
  rw [Change.ofHappening]
  cases built : key.normalized.command "subscribe" with
  | error e =>
    rw [Aggregator.subscribe_of_error built, List.append_nil]
    exact h
  | ok c =>
    rw [Aggregator.subscribe_of_ok built]
    exact h.enrol key.normalized_normalized built

theorem unsubscribe (h : a.registry.Records ids past) (id : String) :
    (a.unsubscribe id).1.registry.Records ids (past ++ [.dropped id]) := by
  cases removed : a.registry.remove? id with
  | none =>
    rw [Aggregator.unsubscribe_of_none removed]
    exact without_of_absent (remove?_eq_none removed) ▸ h.without id
  | some pair =>
    obtain ⟨-, -, rest⟩ := h.orderly.remove?_eq_some removed
    rw [Aggregator.unsubscribe_of_some removed]
    exact rest ▸ h.without id

/-- What a happening changes is what the registry records. -/
theorem take (h : a.registry.Records ids past) (happening : Happening) :
    (a.take happening).registry.Records ids (past ++ Change.ofHappening ids past happening) := by
  have unchanged : a.registry.Records ids (past ++ []) := (List.append_nil past).symm ▸ h
  cases happening with
  | subscribe key => exact h.subscribe key
  | unsubscribe id => exact h.unsubscribe id
  | add c => exact h.register (fun _ none => by cases none) fun _ none => by cases none
  | connect now channel n => cases channel <;> exact unchanged
  | frame now channel f => exact unchanged
  | error now channel fault => exact unchanged
  | rewire board => exact unchanged

end Registry.Records

/-- After any run, the registry agrees with the history. -/
theorem records_after (settings : Settings) {ids : Nat → String} (distinct : Function.Injective ids)
    (happenings : List Happening) :
    (Aggregator.after settings ids happenings).registry.Records ids (history ids happenings) := by
  induction happenings using List.reverseRecOn with
  | nil => exact ⟨rfl, rfl, rfl, Registry.orderly_empty distinct⟩
  | append_singleton before last ih =>
    rw [Aggregator.after, List.foldl_concat, history, List.foldl_concat]
    exact ih.take last

/-! ## Requests after a run -/

namespace Registry.Orderly

variable {a : Aggregator} {key : StreamKey}

/-- The keys of the entries are normal. -/
theorem nodup_normalized {r : Registry} (h : r.Orderly) :
    ((r.subscriptions.filterMap Subscription.key).map StreamKey.normalized).Nodup := by
  have normal : (r.subscriptions.filterMap Subscription.key).map StreamKey.normalized =
      r.subscriptions.filterMap Subscription.key := by
    refine (List.map_congr_left fun key mem => ?_).trans (List.map_id _)
    obtain ⟨s, hs, own⟩ := List.mem_filterMap.mp mem
    exact (h.own s hs key own).1
  rw [normal]
  exact h.keys

/-- Asking again for a stream gives the id of its subscription. -/
theorem subscribe_again (h : a.registry.Orderly) {s : Subscription}
    (hs : s ∈ a.registry.subscriptions)
    (same : s.key.map StreamKey.normalized = some key.normalized) :
    (a.subscribe key).1.registry = a.registry ∧
      (a.subscribe key).2 = if a.isConnected .public then .ok ⟨s.id, a.cache.get? key.normalized⟩
        else .error (.notConnected .public) := by
  obtain ⟨k, own, eq⟩ := Option.map_eq_some_iff.mp same
  obtain ⟨normal, built⟩ := h.own s hs k own
  obtain rfl : k = key.normalized := normal.symm.trans eq
  rw [Aggregator.subscribe_of_ok built, enrol_of_some (h.find?_of_mem hs own)]
  exact ⟨rfl, rfl⟩

/-- A stream is registered even if it cannot be asked for now. -/
theorem subscribe_down (h : a.registry.Orderly) {c : Command}
    (built : key.normalized.command "subscribe" = .ok c) (down : a.isConnected .public = false) :
    (a.subscribe key).2 = .error (.notConnected .public) ∧
      ∃ s ∈ (a.subscribe key).1.registry.subscriptions,
        s.key = some key.normalized ∧ s.command = c := by
  rw [Aggregator.subscribe_of_ok built]
  refine ⟨by rw [down]; rfl, ?_⟩
  show ∃ s ∈ (a.registry.enrol key.normalized c).1.subscriptions, _
  cases found : a.registry.find? key.normalized with
  | some s =>
    obtain ⟨hs, own⟩ := find?_eq_some found
    rw [enrol_of_some found]
    exact ⟨s, hs, own, Except.ok.inj ((h.own s hs _ own).2.symm.trans built)⟩
  | none =>
    rw [enrol_of_none found]
    exact ⟨_, List.mem_append_right _ (List.mem_singleton_self _), rfl, rfl⟩

end Registry.Orderly

/-- **The registry is repeated.** Ids are distinct. After any run: the registry lists the subscriptions
added and not dropped since, in the order in which they were added, and no stream twice; asking for a
stream that is registered gives the id of its subscription and registers nothing; asking for one whose
command cannot be built does nothing, and one that cannot be asked for only since the public channel is
down is registered all the same. A live line that comes up on the public channel gets the commands of
the registry, once each and in this order, behind what was queued on it, and one on the private channel
gets none. -/
theorem registry_replayed_on_connect (settings : Settings) {ids : Nat → String}
    (distinct : Function.Injective ids) (happenings : List Happening) :
    let a := Aggregator.after settings ids happenings
    a.registry.subscriptions = standing (history ids happenings) ∧
    ((a.registry.subscriptions.filterMap Subscription.key).map StreamKey.normalized).Nodup ∧
    (∀ key, ∀ s ∈ a.registry.subscriptions, s.key.map StreamKey.normalized = some key.normalized →
      (a.subscribe key).1.registry = a.registry ∧
      (a.subscribe key).2 = if a.isConnected .public then .ok ⟨s.id, a.cache.get? key.normalized⟩
        else .error (.notConnected .public)) ∧
    (∀ key e, key.normalized.command "subscribe" = .error e → a.subscribe key = (a, .error e)) ∧
    (∀ key c, key.normalized.command "subscribe" = .ok c → a.isConnected .public = false →
      (a.subscribe key).2 = .error (.notConnected .public) ∧
      ∃ s ∈ (a.subscribe key).1.registry.subscriptions,
        s.key = some key.normalized ∧ s.command = c) ∧
    (∀ now n line, a.board.open? n = some line →
      (a.onConnect now .public n).board.lines =
        a.board.lines.set n { line with
          queued := line.queued ++ (standing (history ids happenings)).map Subscription.command }) ∧
    (∀ now n, (a.onConnect now .private n).board = a.board) := by
  intro a
  have records : a.registry.Records ids (history ids happenings) :=
    records_after settings distinct happenings
  have orderly := records.orderly
  refine ⟨records.entries, orderly.nodup_normalized, fun key s hs same => ?_,
    fun key e unbuilt => Aggregator.subscribe_of_error unbuilt, fun key c built down => ?_,
    fun now n line live => ?_, fun _ _ => rfl⟩
  · exact orderly.subscribe_again hs same
  · exact orderly.subscribe_down built down
  · rw [Aggregator.board_onConnect_public, Link.Switchboard.queue_of_open live, Registry.commands,
      records.entries]

/-- A bare command and two streams, of which the first is dropped, and a line that comes up with a
command queued on it. -/
theorem registry_replayed_on_connect_sample :
    let key (market : String) : StreamKey := ⟨"price", "A", market, none, false⟩
    let bare : Command := ⟨"status", .object []⟩
    let args := Json.Value.ofList [("t", .string "price"), ("i", .string "A"), ("m", .ofInt64 2)]
    let line : Link.Line := ⟨.public, true, [.heartbeat]⟩
    let happenings : List Happening := [.subscribe (key "1"), .add bare, .subscribe (key "2"),
      .unsubscribe "$1", .rewire ⟨[line]⟩]
    let a := Aggregator.after .standard Registry.serialIds happenings
    a.registry.subscriptions.map Subscription.id = ["$2", "$3"] ∧
    (a.onConnect ⟨0, ""⟩ .public 0).board.lines =
      [{ line with queued := [.heartbeat, bare, ⟨"subscribe", args⟩] }] := by
  intro key bare args line happenings a
  obtain ⟨listed, -, -, -, -, repeated, -⟩ := registry_replayed_on_connect .standard
    Registry.serialIds_injective happenings
  refine ⟨?_, ?_⟩
  · rw [listed]
    decide +kernel
  · rw [repeated ⟨0, ""⟩ 0 line (by decide +kernel)]
    decide +kernel

end MarketStream
