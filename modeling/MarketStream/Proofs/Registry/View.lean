import Mathlib.Data.Finset.Basic
import Mathlib.Data.List.Induction
import MarketStream.Proofs.Registry.Arguments
import MarketStream.Proofs.Registry.Requests

/-!
# What the feed takes to be asked for

The feed knows only the lines it reads. After a line came up on the public channel it takes to be
asked for what the registry needs, except for streams that were silenced: dropped for one subscription
while another one, for the same market spelled differently, went on to need them.

* `Turn` — what callers and the public channel do; `Aggregator.played` — what comes of it;
* `heard` — the streams that are on after commands were read; `Registry.Needs` — those needed;
* `Silenced` — a stream that is off though it is needed, by what happened;
* `Registry.Listed` — the entries of a registry come from what was asked for;
* `feed_hears_needed_unless_silenced` — what the feed takes to be asked for.
-/

namespace MarketStream

/-! ## Turns -/

/-- What callers and the public channel do, one at a time. -/
inductive Turn where
  /-- A stream is asked for. -/
  | subscribe (key : StreamKey)
  /-- A subscription is dropped. -/
  | unsubscribe (id : String)
  /-- The public channel comes up with a new line. -/
  | connect (now : Moment)
  /-- The public channel fails. -/
  | error (now : Moment) (fault : Fault)

namespace Aggregator

/-- A new line of the public channel. -/
def attach (a : Aggregator) : Aggregator := { a with board := (a.board.attach .public).1 }

/-- An aggregator after a turn. -/
def turn (a : Aggregator) : Turn → Aggregator
  | .subscribe key => (a.subscribe key).1
  | .unsubscribe id => (a.unsubscribe id).1
  | .connect now => a.attach.onConnect now .public (a.board.attach .public).2
  | .error now fault => a.onError now .public fault

/-- A new aggregator after turns. -/
def played (settings : Settings) (ids : Nat → String) (turns : List Turn) : Aggregator :=
  turns.foldl turn (fresh settings ids)

theorem played_concat (settings : Settings) (ids : Nat → String) (turns : List Turn) (next : Turn) :
    played settings ids (turns ++ [next]) = (played settings ids turns).turn next :=
  List.foldl_concat ..

/-- A new line is there with the commands of the registry. -/
theorem line?_connect (a : Aggregator) (now : Moment) :
    (a.turn (.connect now)).line? .public = some ⟨.public, true, a.registry.commands⟩ := by
  have up : a.attach.board.open? a.board.lines.length = some ⟨.public, true, []⟩ := by
    simp [attach, Link.Switchboard.attach, Link.Switchboard.open?]
  show (a.attach.onConnect now .public a.board.lines.length).board.open? a.board.lines.length = _
  rw [board_onConnect_public, Link.Switchboard.open?_queue, up]
  simp [Link.Line.queue, attach]

theorem line?_error (a : Aggregator) (now : Moment) (fault : Fault) :
    (a.turn (.error now fault)).line? .public = none := rfl

end Aggregator

/-! ## What the feed hears -/

/-- What a command does to the streams that are on. -/
def obey (on : Finset Json.Value) (c : Command) : Finset Json.Value :=
  if c.name = "subscribe" then insert c.args on
  else if c.name = "unsubscribe" then on.erase c.args
  else on

/-- The streams that are on after commands were read, by their arguments. -/
def heard (lines : List Command) : Finset Json.Value := lines.foldl obey ∅

/-- The streams that are on at the feed, if the public channel is up. -/
def Aggregator.heard? (a : Aggregator) : Option (Finset Json.Value) :=
  (a.line? .public).map fun line => heard line.queued

theorem Aggregator.isSome_heard? (a : Aggregator) : a.heard?.isSome = a.isConnected .public := by
  rw [heard?, Option.isSome_map, isConnected_eq]

theorem heard_concat (lines : List Command) (c : Command) :
    heard (lines ++ [c]) = obey (heard lines) c := List.foldl_concat ..

theorem mem_heard_subscribes {lines : List Command} (all : ∀ c ∈ lines, c.name = "subscribe")
    (args : Json.Value) : args ∈ heard lines ↔ ∃ c ∈ lines, c.args = args := by
  induction lines using List.reverseRecOn with
  | nil => simp [heard]
  | append_singleton before c ih =>
    have before_all : ∀ c ∈ before, c.name = "subscribe" := fun d hd =>
      all d (List.mem_append_left _ hd)
    rw [heard_concat, obey, if_pos (all c (List.mem_append_right _ (List.mem_singleton_self _))),
      Finset.mem_insert, ih before_all]
    simp only [List.mem_append, List.mem_singleton, or_and_right, exists_or, exists_eq_left]
    rw [or_comm, eq_comm]

/-- What is sent on the public channel is heard. -/
theorem Aggregator.heard?_send (a : Aggregator) (c : Command) :
    (a.send .public [c]).heard? = a.heard?.map fun on => obey on c := by
  rw [heard?, heard?, line?_send]
  cases there : a.line? .public with
  | none => rfl
  | some line =>
    obtain ⟨n, -, opened⟩ := Option.bind_eq_some_iff.mp there
    have up := (Link.Switchboard.open?_eq_some.mp opened).2
    simp only [Option.map_some, Link.Line.queue_of_open up, heard_concat]

namespace Aggregator

variable {a : Aggregator} {key : StreamKey} {c : Command} {id : String} {r : Registry}
  {s : Subscription}

theorem registry_turn_subscribe (built : key.normalized.command "subscribe" = .ok c) :
    (a.turn (.subscribe key)).registry = (a.registry.enrol key.normalized c).1 := by
  rw [turn, subscribe_of_ok built]
  rfl

/-- A stream that was asked for is on. -/
theorem heard?_turn_subscribe (built : key.normalized.command "subscribe" = .ok c) :
    (a.turn (.subscribe key)).heard? = a.heard?.map fun on => insert c.args on := by
  have obeyed : (fun on => obey on c) = fun on => insert c.args on :=
    funext fun on => if_pos (StreamKey.command_eq_ok.mp built).2.symm
  rw [turn, subscribe_of_ok built, heard?_send, obeyed]
  rfl

theorem registry_turn_unsubscribe (removed : a.registry.remove? id = some (r, s)) :
    (a.turn (.unsubscribe id)).registry = r := by
  rw [turn, unsubscribe_of_some removed]
  rfl

/-- A stream that was dropped is off. -/
theorem heard?_turn_unsubscribe (removed : a.registry.remove? id = some (r, s)) :
    (a.turn (.unsubscribe id)).heard? = a.heard?.map fun on => on.erase s.command.args := by
  have obeyed : (fun on => obey on (s.command.withName "unsubscribe"))
      = fun on => on.erase s.command.args := funext fun on =>
    (if_neg (by decide : "unsubscribe" ≠ "subscribe")).trans (if_pos rfl)
  rw [turn, unsubscribe_of_some removed, heard?_send, obeyed]
  rfl

end Aggregator

/-! ## What the registry needs -/

namespace Registry

variable {r : Registry}

/-- Some subscription needs a stream. -/
def Needs (r : Registry) (args : Json.Value) : Prop :=
  ∃ s ∈ r.subscriptions, s.command.args = args

/-- A subscription is not the only one that needs a stream. -/
def Shares (r : Registry) (id : String) (args : Json.Value) : Prop :=
  ∃ s ∈ r.subscriptions, ∃ t ∈ r.subscriptions,
    s.id = id ∧ t.id ≠ id ∧ s.command.args = args ∧ t.command.args = args

/-- The entries of a registry come from what was asked for. -/
structure Listed (turns : List Turn) (r : Registry) : Prop where
  /-- The entries are in order. -/
  orderly : r.Orderly
  /-- Each is for a stream that was asked for. -/
  streams : ∀ s ∈ r.subscriptions, ∃ key, .subscribe key ∈ turns ∧ s.key = some key.normalized

variable {turns : List Turn} {key : StreamKey} {c : Command} {id : String}

/-- What is needed after a stream was asked for. -/
theorem needs_enrol (h : r.Orderly) (built : key.command "subscribe" = .ok c) (args : Json.Value) :
    (r.enrol key c).1.Needs args ↔ r.Needs args ∨ args = c.args := by
  cases found : r.find? key with
  | some s =>
    obtain ⟨hs, own⟩ := find?_eq_some found
    have same : s.command = c := Except.ok.inj ((h.own s hs key own).2.symm.trans built)
    rw [enrol_of_some found]
    exact ⟨.inl, fun h => h.elim id fun eq => ⟨s, hs, same ▸ eq.symm⟩⟩
  | none =>
    rw [enrol_of_none found]
    simp only [Needs, register, List.mem_append, List.mem_singleton, or_and_right, exists_or,
      exists_eq_left]
    rw [eq_comm (a := args)]

/-- What is needed after a subscription was dropped is what others needed. -/
theorem needs_without (args : Json.Value) :
    (r.without id).Needs args ↔ ∃ s ∈ r.subscriptions, s.id ≠ id ∧ s.command.args = args := by
  simp only [Needs, mem_without, and_assoc]

/-- Apart from streams that were shared, what is needed after a subscription was dropped is what was
needed before, except for its own stream. -/
theorem Orderly.needs_without_unshared (h : r.Orderly) {s : Subscription}
    (hs : s ∈ r.subscriptions) (args : Json.Value) :
    (r.without s.id).Needs args ∧ ¬ r.Shares s.id args ↔
      r.Needs args ∧ args ≠ s.command.args := by
  rw [needs_without]
  constructor
  · rintro ⟨⟨t, ht, others, need⟩, unshared⟩
    exact ⟨⟨t, ht, need⟩, fun same => unshared ⟨s, hs, t, ht, rfl, others, same.symm, need⟩⟩
  · rintro ⟨⟨t, ht, need⟩, other⟩
    refine ⟨⟨t, ht, fun same => other ?_, need⟩, ?_⟩
    · rw [← need, h.eq_of_id_eq ht hs same]
    · rintro ⟨u, hu, -, -, same, -, own, -⟩
      exact other (h.eq_of_id_eq hu hs same ▸ own.symm)

theorem Listed.mono (h : r.Listed turns) (next : Turn) : r.Listed (turns ++ [next]) where
  orderly := h.orderly
  streams s hs := by
    obtain ⟨key, asked, own⟩ := h.streams s hs
    exact ⟨key, List.mem_append_left _ asked, own⟩

theorem Listed.enrol (h : r.Listed turns) (built : key.normalized.command "subscribe" = .ok c) :
    (r.enrol key.normalized c).1.Listed (turns ++ [.subscribe key]) where
  orderly := h.orderly.enrol key.normalized_normalized built
  streams s hs := by
    cases found : r.find? key.normalized with
    | some t =>
      rw [enrol_of_some found] at hs
      exact (h.mono _).streams s hs
    | none =>
      rw [enrol_of_none found] at hs
      rcases List.mem_append.mp hs with old | new
      · exact (h.mono _).streams s old
      · rw [List.mem_singleton.mp new]
        exact ⟨key, List.mem_append_right _ (List.mem_singleton_self _), rfl⟩

theorem Listed.without (h : r.Listed turns) (id : String) : (r.without id).Listed turns where
  orderly := h.orderly.without id
  streams s hs := h.streams s (mem_without.mp hs).1

/-- The commands of the registry ask for streams. -/
theorem Listed.name_of_mem_commands (h : r.Listed turns) (hc : c ∈ r.commands) :
    c.name = "subscribe" := by
  obtain ⟨s, hs, rfl⟩ := List.mem_map.mp hc
  obtain ⟨key, -, own⟩ := h.streams s hs
  exact (StreamKey.command_eq_ok.mp (h.orderly.own s hs _ own).2).2.symm

/-- Only streams with markets spelled in two ways are shared. -/
theorem Listed.respelled_of_shares (h : r.Listed turns) {args : Json.Value}
    (shares : r.Shares id args) :
    ∃ k l, .subscribe k ∈ turns ∧ .subscribe l ∈ turns ∧ k.normalized.Respelled l.normalized ∧
      k.normalized.args = .ok args ∧ l.normalized.args = .ok args := by
  obtain ⟨s, hs, t, ht, rfl, others, need, need'⟩ := shares
  obtain ⟨k, asked, own⟩ := h.streams s hs
  obtain ⟨l, asked', own'⟩ := h.streams t ht
  have args_k := (StreamKey.command_eq_ok.mp (h.orderly.own s hs _ own).2).1
  have args_l := (StreamKey.command_eq_ok.mp (h.orderly.own t ht _ own').2).1
  rw [need] at args_k
  rw [need'] at args_l
  refine ⟨k, l, asked, asked', ?_, args_k, args_l⟩
  refine (StreamKey.eq_or_respelled_of_args k.normalized_normalized l.normalized_normalized
    args_k args_l).resolve_left fun same => others ?_
  exact congrArg Subscription.id (h.orderly.eq_of_key_eq ht hs own' (same ▸ own))

end Registry

namespace Aggregator

variable {a : Aggregator} {turns : List Turn}

theorem listed_turn (h : a.registry.Listed turns) (next : Turn) :
    (a.turn next).registry.Listed (turns ++ [next]) := by
  cases next with
  | subscribe key =>
    cases built : key.normalized.command "subscribe" with
    | error e =>
      rw [turn, subscribe_of_error built]
      exact h.mono _
    | ok c =>
      rw [registry_turn_subscribe built]
      exact h.enrol built
  | unsubscribe id =>
    cases removed : a.registry.remove? id with
    | none =>
      rw [turn, unsubscribe_of_none removed]
      exact h.mono _
    | some pair =>
      obtain ⟨-, -, rest⟩ := h.orderly.remove?_eq_some removed
      rw [registry_turn_unsubscribe removed, rest]
      exact (h.without id).mono _
  | connect now => exact h.mono _
  | error now fault => exact h.mono _

theorem listed_played (settings : Settings) {ids : Nat → String} (distinct : Function.Injective ids)
    (turns : List Turn) :
    (played settings ids turns).registry.Listed turns := by
  induction turns using List.reverseRecOn with
  | nil => exact ⟨Registry.orderly_empty distinct, fun _ none => by cases none⟩
  | append_singleton before next ih =>
    rw [played_concat]
    exact listed_turn ih next

end Aggregator

/-! ## Silenced streams -/

/-- Whether a turn makes the feed be asked for a stream. -/
def Turn.Asks (args : Json.Value) : Turn → Prop
  | .subscribe key => key.normalized.args = .ok args
  | .connect _ => True
  | .unsubscribe _ | .error .. => False

/-- A stream was dropped for one subscription while another one needed it, and was not asked for
since. -/
def Silenced (settings : Settings) (ids : Nat → String) (turns : List Turn) (args : Json.Value) :
    Prop :=
  ∃ before id later, turns = before ++ .unsubscribe id :: later ∧
    (Aggregator.played settings ids before).registry.Shares id args ∧
    ∀ turn ∈ later, ¬ turn.Asks args

section

variable {settings : Settings} {ids : Nat → String} {turns : List Turn} {args : Json.Value}

theorem silenced_concat (next : Turn) :
    Silenced settings ids (turns ++ [next]) args ↔
      (Silenced settings ids turns args ∧ ¬ next.Asks args) ∨
        ∃ id, next = .unsubscribe id ∧
          (Aggregator.played settings ids turns).registry.Shares id args := by
  constructor
  · rintro ⟨before, id, later, eq, shares, quiet⟩
    -- The last turn is the one that silenced the stream, or came after it.
    rcases List.eq_nil_or_concat later with rfl | ⟨rest, last, rfl⟩
    · obtain ⟨rfl, last⟩ := List.append_inj' eq rfl
      exact .inr ⟨id, List.singleton_inj.mp last, shares⟩
    · rw [List.concat_eq_append] at eq quiet
      rw [← List.cons_append, ← List.append_assoc] at eq
      obtain ⟨rfl, same⟩ := List.append_inj' eq rfl
      obtain rfl := List.singleton_inj.mp same
      refine .inl ⟨⟨before, id, rest, rfl, shares, fun turn mem => ?_⟩, ?_⟩
      · exact quiet turn (List.mem_append_left _ mem)
      · exact quiet next (List.mem_append_right _ (List.mem_singleton_self _))
  · rintro (⟨⟨before, id, later, rfl, shares, quiet⟩, silent⟩ | ⟨id, rfl, shares⟩)
    · refine ⟨before, id, later ++ [next], by simp, shares, fun turn mem => ?_⟩
      rcases List.mem_append.mp mem with old | new
      · exact quiet turn old
      · exact List.mem_singleton.mp new ▸ silent
    · exact ⟨turns, id, [], rfl, shares, fun _ none => by cases none⟩

/-- The feed takes to be asked for what is needed and was not silenced. -/
def Attuned (settings : Settings) (ids : Nat → String) (turns : List Turn) : Prop :=
  ∀ on, (Aggregator.played settings ids turns).heard? = some on → ∀ args,
    args ∈ on ↔ (Aggregator.played settings ids turns).registry.Needs args ∧
      ¬ Silenced settings ids turns args

theorem Attuned.subscribe (h : Attuned settings ids turns) (distinct : Function.Injective ids)
    (key : StreamKey) : Attuned settings ids (turns ++ [.subscribe key]) := by
  have listed := Aggregator.listed_played settings distinct turns
  intro on up args
  have quiet : Silenced settings ids (turns ++ [.subscribe key]) args ↔
      Silenced settings ids turns args ∧ key.normalized.args ≠ .ok args := by
    rw [silenced_concat]
    exact or_iff_left fun ⟨_, eq, _⟩ => by cases eq
  rw [Aggregator.played_concat] at up ⊢
  rw [quiet]
  cases built : key.normalized.command "subscribe" with
  | error e =>
    have unbuilt : key.normalized.args ≠ .ok args := fun ok => by
      rw [StreamKey.command, ok] at built
      cases built
    rw [Aggregator.turn, Aggregator.subscribe_of_error built] at up ⊢
    rw [h on up args, and_iff_left unbuilt]
  | ok c =>
    obtain ⟨own, -⟩ := StreamKey.command_eq_ok.mp built
    rw [Aggregator.heard?_turn_subscribe built] at up
    obtain ⟨before, on_before, rfl⟩ := Option.map_eq_some_iff.mp up
    rw [Aggregator.registry_turn_subscribe built, Registry.needs_enrol listed.orderly built, own,
      Finset.mem_insert, h before on_before args]
    by_cases same : args = c.args
    · simp [same]
    · have other : (.ok c.args : Except Fault Json.Value) ≠ .ok args := fun eq =>
        same (Except.ok.inj eq).symm
      simp only [same, false_or, or_false, and_iff_left other]

theorem Attuned.unsubscribe (h : Attuned settings ids turns) (distinct : Function.Injective ids)
    (id : String) : Attuned settings ids (turns ++ [.unsubscribe id]) := by
  have listed := Aggregator.listed_played settings distinct turns
  intro on up args
  have quiet : Silenced settings ids (turns ++ [.unsubscribe id]) args ↔
      Silenced settings ids turns args ∨
        (Aggregator.played settings ids turns).registry.Shares id args := by
    rw [silenced_concat, Turn.Asks, not_false_eq_true, and_true]
    refine or_congr_right ⟨fun ⟨other, eq, shares⟩ => ?_, fun shares => ⟨id, rfl, shares⟩⟩
    exact Turn.unsubscribe.inj eq ▸ shares
  rw [Aggregator.played_concat] at up ⊢
  rw [quiet]
  cases removed : (Aggregator.played settings ids turns).registry.remove? id with
  | none =>
    have unshared : ¬ (Aggregator.played settings ids turns).registry.Shares id args :=
      fun ⟨s, hs, _, _, own, _⟩ => Registry.remove?_eq_none removed s hs own
    rw [Aggregator.turn, Aggregator.unsubscribe_of_none removed] at up ⊢
    rw [h on up args, or_iff_left unshared]
  | some pair =>
    obtain ⟨r, s⟩ := pair
    obtain ⟨hs, rfl, rest⟩ := listed.orderly.remove?_eq_some removed
    rw [Aggregator.heard?_turn_unsubscribe removed] at up
    obtain ⟨before, on_before, rfl⟩ := Option.map_eq_some_iff.mp up
    rw [Aggregator.registry_turn_unsubscribe removed, rest, Finset.mem_erase, h before on_before args,
      not_or]
    have unshared := listed.orderly.needs_without_unshared hs args
    tauto

theorem Attuned.connect (distinct : Function.Injective ids) (now : Moment) :
    Attuned settings ids (turns ++ [.connect now]) := by
  have listed := Aggregator.listed_played settings distinct turns
  intro on up args
  have audible : ¬ Silenced settings ids (turns ++ [.connect now]) args := by
    rw [silenced_concat]
    rintro (⟨-, silent⟩ | ⟨id, eq, -⟩)
    · exact silent trivial
    · cases eq
  rw [Aggregator.played_concat] at up ⊢
  rw [Aggregator.heard?, Aggregator.line?_connect] at up
  obtain rfl := Option.some.inj up
  rw [and_iff_left audible, mem_heard_subscribes fun c hc => listed.name_of_mem_commands hc,
    Registry.commands]
  show _ ↔ ∃ s ∈ (Aggregator.played settings ids turns).registry.subscriptions, _
  simp

theorem Attuned.error (now : Moment) (fault : Fault) :
    Attuned settings ids (turns ++ [.error now fault]) := by
  intro on up
  rw [Aggregator.played_concat, Aggregator.heard?, Aggregator.line?_error] at up
  cases up

theorem attuned_played (settings : Settings) (distinct : Function.Injective ids)
    (turns : List Turn) : Attuned settings ids turns := by
  induction turns using List.reverseRecOn with
  | nil =>
    intro on up
    cases up
  | append_singleton before next ih =>
    cases next with
    | subscribe key => exact ih.subscribe distinct key
    | unsubscribe id => exact ih.unsubscribe distinct id
    | connect now => exact .connect distinct now
    | error now fault => exact .error now fault

/-- Only streams with markets spelled in two ways are silenced. -/
theorem Silenced.respelled (h : Silenced settings ids turns args)
    (distinct : Function.Injective ids) :
    ∃ k l, .subscribe k ∈ turns ∧ .subscribe l ∈ turns ∧ k.normalized.Respelled l.normalized ∧
      k.normalized.args = .ok args ∧ l.normalized.args = .ok args := by
  obtain ⟨before, id, later, rfl, shares, -⟩ := h
  obtain ⟨k, l, asked, asked', respelled⟩ :=
    (Aggregator.listed_played settings distinct before).respelled_of_shares shares
  exact ⟨k, l, List.mem_append_left _ asked, List.mem_append_left _ asked', respelled⟩

/-- **The feed hears what the registry needs, unless it was silenced.** Ids are distinct. After any
turns, the feed hears exactly if the public channel is up, and then the streams that are on at the feed
are those that the registry needs, except for those that were silenced. Only streams of instruments
whose markets were spelled in two ways can be silenced; where all markets are plain, exactly the streams
that the registry needs are on. -/
theorem feed_hears_needed_unless_silenced (settings : Settings) {ids : Nat → String}
    (distinct : Function.Injective ids) (turns : List Turn) :
    let a := Aggregator.played settings ids turns
    a.heard?.isSome = a.isConnected .public ∧
    (∀ on, a.heard? = some on → ∀ args,
      args ∈ on ↔ a.registry.Needs args ∧ ¬ Silenced settings ids turns args) ∧
    (∀ args, Silenced settings ids turns args →
      ∃ k l, .subscribe k ∈ turns ∧ .subscribe l ∈ turns ∧ k.normalized.Respelled l.normalized ∧
        k.normalized.args = .ok args ∧ l.normalized.args = .ok args) ∧
    ((∀ key, .subscribe key ∈ turns → key.Plain) →
      ∀ on, a.heard? = some on → ∀ args, args ∈ on ↔ a.registry.Needs args) := by
  have attuned := attuned_played settings distinct turns
  refine ⟨Aggregator.isSome_heard? _, attuned, fun args silenced => silenced.respelled distinct,
    fun plain on up args => ?_⟩
  have audible : ¬ Silenced settings ids turns args := fun silenced => by
    obtain ⟨k, l, asked, asked', respelled, -⟩ := silenced.respelled distinct
    exact respelled.not_plain (plain k asked).normalized (plain l asked').normalized
  rw [attuned on up args, and_iff_left audible]

end

/-- Two streams with plain markets, one asked for before the public channel comes up and dropped
afterwards. -/
theorem feed_hears_needed_unless_silenced_sample :
    let key (market : String) : StreamKey := ⟨"price", "A", market, none, false⟩
    let turns : List Turn :=
      [.subscribe (key "1"), .connect ⟨0, ""⟩, .subscribe (key "2"), .unsubscribe "$1"]
    let a := Aggregator.played .standard Registry.serialIds turns
    let on : Finset Json.Value :=
      {.ofList [("t", .string "price"), ("i", .string "A"), ("m", .ofInt64 2)]}
    a.heard? = some on ∧ ∀ args, args ∈ on ↔ a.registry.Needs args := by
  intro key turns a on
  have up : a.heard? = some on := by decide +kernel
  have plain : ∀ k, .subscribe k ∈ turns → k.Plain := by
    intro k asked
    have either : k = key "1" ∨ k = key "2" := by simpa [turns] using asked
    rcases either with rfl | rfl
    · exact StreamKey.plain_of_number (n := 1) (by decide) (by decide)
    · exact StreamKey.plain_of_number (n := 2) (by decide) (by decide)
  obtain ⟨-, -, -, heard⟩ :=
    feed_hears_needed_unless_silenced .standard Registry.serialIds_injective turns
  exact ⟨up, heard plain on up⟩

/-- One market spelled in two ways: dropping the first subscription silences the second. -/
theorem respelled_market_silenced :
    let turns : List Turn := [.connect ⟨0, ""⟩, .subscribe ⟨"price", "A", "1", none, false⟩,
      .subscribe ⟨"price", "A", "01", none, false⟩, .unsubscribe "$1"]
    let a := Aggregator.played .standard Registry.serialIds turns
    a.heard? = some ∅ ∧
      a.registry.Needs (.ofList [("t", .string "price"), ("i", .string "A"), ("m", .ofInt64 1)]) := by
  intro turns a
  refine ⟨rfl, _, .head _, rfl⟩

end MarketStream
