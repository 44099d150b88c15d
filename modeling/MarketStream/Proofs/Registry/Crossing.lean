import MarketStream.Proofs.Registry.Errands

/-!
# Commands that cross on their way

An operation changes the registry first and writes to the line later, so the commands of operations
that are under way side by side may be written in another order than the registry was changed in. What
the feed takes to be asked for is then decided by the last command about each stream, and the registry
by the last change.

* `Outdated` — the last command about a stream did not go with the registry when it was written;
* `Errand.Asks`, `Errand.Retracts` — what an operation under way has yet to write;
* `Scene.Begins`, `Scene.Proceeds` — what a step can do;
* `Scene.Settled` — where nothing is under way about a stream, the feed agrees on it with the registry
  unless the last command about it is outdated; `settled_after` — that it holds after any steps;
* `Scene.Crosses`, `Scene.Calm` — where nothing crosses, nothing is outdated; `calm_after`;
* `feed_agrees_unless_outdated` — what the feed takes to be asked for once all is done;
* `replay_undoes_unsubscribe` — steps in an order that leaves a dropped stream on.
-/

namespace MarketStream

/-! ## Outdated commands -/

/-- The last command about a stream, with the registry as it was when it was written. -/
def Minutes.last? (m : Minutes) (args : Json.Value) : Option (Command × Registry) :=
  m.reverse.find? fun entry => decide (entry.1.args = args)

/-- The last command about a stream did not go with the registry when it was written: it asked for the
stream when nothing needed it, or retracted it when something did. -/
def Outdated (m : Minutes) (args : Json.Value) : Prop :=
  ∃ entry, m.last? args = some entry ∧ ¬ (entry.1.name = "subscribe" ↔ entry.2.Needs args)

theorem not_outdated_nil (args : Json.Value) : ¬ Outdated [] args := by
  rintro ⟨entry, none, -⟩
  cases none

/-- A command decides for its own stream. -/
theorem outdated_concat_self (m : Minutes) (c : Command) (r : Registry) :
    Outdated (m ++ [(c, r)]) c.args ↔ ¬ (c.name = "subscribe" ↔ r.Needs c.args) := by
  simp [Outdated, Minutes.last?]

/-- A command decides for no other stream. -/
theorem outdated_concat_of_ne {m : Minutes} {c : Command} {r : Registry} {args : Json.Value}
    (other : c.args ≠ args) : Outdated (m ++ [(c, r)]) args ↔ Outdated m args := by
  simp [Outdated, Minutes.last?, other]

/-- A command turns its own stream on or off. -/
theorem mem_obey_self {c : Command} (named : c.name = "subscribe" ∨ c.name = "unsubscribe")
    (on : Finset Json.Value) : c.args ∈ obey on c ↔ c.name = "subscribe" := by
  rcases named with name | name
  · simp [obey, name]
  · simp [obey, name]

/-- A command leaves any other stream as it is. -/
theorem mem_obey_of_ne {c : Command} {args : Json.Value} (other : c.args ≠ args)
    (on : Finset Json.Value) : args ∈ obey on c ↔ args ∈ on := by
  rw [obey]
  split
  · simp [Ne.symm other]
  · split
    · simp [Ne.symm other]
    · rfl

/-! ## What is yet to be written -/

namespace Errand

/-- The operation has yet to ask for a stream on the line of the public channel. -/
def Asks (a : Aggregator) (args : Json.Value) : Errand → Prop
  | .copy n => a.writers.get .public = some n ∧ a.registry.Needs args
  | .recite n cs => a.writers.get .public = some n ∧ ∃ c ∈ cs, c.args = args
  | .ask c => c.args = args
  | .retract _ => False

/-- The operation has yet to retract a stream. -/
def Retracts (args : Json.Value) : Errand → Prop
  | .retract c => c.args = args
  | .copy _ | .recite .. | .ask _ => False

/-- What the operation has yet to write is named for what it does. -/
def Named : Errand → Prop
  | .copy _ => True
  | .recite _ cs => ∀ c ∈ cs, c.name = "subscribe"
  | .ask c => c.name = "subscribe"
  | .retract c => c.name = "unsubscribe"

/-- The operation writes to a line of its own, whichever line the channel has by then. -/
def IsBoundTo (n : Nat) : Errand → Prop
  | .copy m | .recite m _ => m = n
  | .ask _ | .retract _ => False

variable {a : Aggregator} {e f : Errand} {c : Command} {args : Json.Value}

/-- What is asked for depends on the line of the public channel and on what is needed. -/
theorem asks_congr {a' : Aggregator} (writer : a'.writers.get .public = a.writers.get .public)
    (needs : a'.registry.Needs args ↔ a.registry.Needs args) :
    e.Asks a' args ↔ e.Asks a args := by
  cases e <;> simp only [Asks, writer, needs]

theorem asks_withRegistry {r : Registry} (needs : r.Needs args ↔ a.registry.Needs args) :
    e.Asks (a.withRegistry r) args ↔ e.Asks a args :=
  asks_congr rfl needs

/-- A command that is written was yet to be written. -/
theorem Named.spoken (named : e.Named) (spoken : e.spoken? a = some c) :
    c.name = "subscribe" ∧ e.Asks a c.args ∨ c.name = "unsubscribe" ∧ e.Retracts c.args := by
  cases e with
  | copy n => cases spoken
  | recite n cs =>
    cases cs with
    | nil => cases spoken
    | cons d rest =>
      obtain ⟨⟨current, -⟩, eq⟩ := Option.ite_none_right_eq_some.mp spoken
      obtain rfl := Option.some.inj eq
      exact .inl ⟨named d List.mem_cons_self, current, d, List.mem_cons_self, rfl⟩
  | ask d =>
    obtain ⟨-, eq⟩ := Option.ite_none_right_eq_some.mp spoken
    obtain rfl := Option.some.inj eq
    exact .inl ⟨named, rfl⟩
  | retract d =>
    obtain ⟨-, eq⟩ := Option.ite_none_right_eq_some.mp spoken
    obtain rfl := Option.some.inj eq
    exact .inr ⟨named, rfl⟩

/-- What is yet to be asked for is still to be asked for after a step that does not do so. -/
theorem Asks.next (asks : e.Asks a args) (up : a.isConnected .public = true)
    (silent : ∀ c, e.spoken? a = some c → c.args ≠ args) :
    ∃ f, (e.step a).2 = some f ∧ f.Asks a args := by
  cases e with
  | copy n =>
    obtain ⟨current, t, mem, need⟩ := asks
    exact ⟨_, rfl, current, t.command, List.mem_map_of_mem mem, need⟩
  | recite n cs =>
    obtain ⟨current, d, mem, own⟩ := asks
    cases cs with
    | nil => cases mem
    | cons c rest =>
      have other : c.args ≠ args := silent c (if_pos ⟨current, up⟩)
      have opened : a.board.isOpen n = true := by
        rw [Aggregator.isConnected, current] at up
        exact up
      rw [step_recite, if_pos opened]
      refine ⟨_, rfl, current, d, ?_, own⟩
      rcases List.mem_cons.mp mem with rfl | later
      · exact absurd own other
      · exact later
  | ask c => exact absurd asks (silent c (if_pos up))
  | retract c => cases asks

/-- A stream that is yet to be retracted is retracted by the next step, if the channel is up. -/
theorem Retracts.spoken (retracts : e.Retracts args) (up : a.isConnected .public = true) :
    ∃ c, e.spoken? a = some c ∧ c.args = args := by
  cases e with
  | retract c => exact ⟨c, if_pos up, retracts⟩
  | copy | recite | ask => cases retracts

/-- What is left to be done after a step. -/
theorem of_step (left : (e.step a).2 = some f) :
    (∀ args, f.Asks a args → e.Asks a args) ∧ (∀ args, ¬ f.Retracts args) ∧
      (∀ n, f.IsBoundTo n → e.IsBoundTo n) ∧
      (e.Named → (∀ c ∈ a.registry.commands, c.name = "subscribe") → f.Named) := by
  cases e with
  | copy n =>
    obtain rfl := Option.some.inj left
    refine ⟨?_, fun _ => id, fun _ => id, fun _ => id⟩
    rintro args ⟨current, c, mem, own⟩
    obtain ⟨t, ht, rfl⟩ := List.mem_map.mp mem
    exact ⟨current, t, ht, own⟩
  | recite n cs =>
    cases cs with
    | nil => cases left
    | cons c rest =>
      rw [step_recite] at left
      obtain ⟨-, eq⟩ := Option.ite_none_right_eq_some.mp left
      obtain rfl := Option.some.inj eq
      refine ⟨?_, fun _ => id, fun _ => id, ?_⟩
      · rintro args ⟨current, d, mem, own⟩
        exact ⟨current, d, List.mem_cons_of_mem _ mem, own⟩
      · intro named _ d mem
        exact named d (List.mem_cons_of_mem _ mem)
  | ask c =>
    rw [step_ask] at left
    cases left
  | retract c =>
    rw [step_retract] at left
    cases left

end Errand

/-! ## What a step can do -/

namespace Scene

variable {turns : List Turn} {s s' : Scene}

/-- What holds of a scene at any time. -/
structure Sound (turns : List Turn) (s : Scene) : Prop where
  /-- The entries of the registry come from what was asked for. -/
  listed : s.aggregator.registry.Listed turns
  /-- What is yet to be written is named for what it does. -/
  named : ∀ e ∈ s.errands, e.Named
  /-- Lines are there before anything is to be written to them. -/
  laid : ∀ e ∈ s.errands, ∀ n, e.IsBoundTo n → n < s.aggregator.board.lines.length

/-- What beginning an operation can do. -/
inductive Begins (turns : List Turn) (s : Scene) : Turn → Scene → Prop where
  /-- It is refused. -/
  | refused (t : Turn) (quiet : t.isConnect = false) : Begins turns s t s
  /-- A stream is registered. -/
  | ask (key : StreamKey) (c : Command) (r : Registry)
    (name : c.name = "subscribe") (own : key.normalized.args = .ok c.args)
    (listed : r.Listed (turns ++ [.subscribe key]))
    (needs : ∀ args, r.Needs args ↔ s.aggregator.registry.Needs args ∨ args = c.args) :
    Begins turns s (.subscribe key)
      ⟨s.aggregator.withRegistry r, s.errands ++ [.ask c], s.minutes⟩
  /-- A subscription is dropped. -/
  | retract (id : String) (c : Command) (r : Registry) (name : c.name = "unsubscribe")
    (own : ∃ t ∈ s.aggregator.registry.subscriptions, t.id = id ∧ t.command.args = c.args)
    (listed : r.Listed turns)
    (others : ∀ args, args ≠ c.args → (r.Needs args ↔ s.aggregator.registry.Needs args))
    (unshared : ¬ s.aggregator.registry.Shares id c.args → ¬ r.Needs c.args) :
    Begins turns s (.unsubscribe id)
      ⟨s.aggregator.withRegistry r, s.errands ++ [.retract c], s.minutes⟩
  /-- A new line comes up. -/
  | connect (now : Moment) :
    Begins turns s (.connect now)
      ⟨s.aggregator.attach.rewired now s.aggregator.board.lines.length,
        s.errands ++ [.copy s.aggregator.board.lines.length], []⟩
  /-- The public channel fails. -/
  | error (now : Moment) (fault : Fault) :
    Begins turns s (.error now fault)
      ⟨s.aggregator.onError now .public fault, s.errands, s.minutes⟩

theorem begins (h : s.Sound turns) (t : Turn) : Begins turns s t (s.begin t) := by
  cases t with
  | subscribe key =>
    cases built : key.normalized.command "subscribe" with
    | error e =>
      have same : s.begin (.subscribe key) = s := by
        simp [begin, Aggregator.begun, built, Turn.isConnect]
      rw [same]
      exact .refused _ rfl
    | ok c =>
      have next : s.begin (.subscribe key) =
          ⟨s.aggregator.withRegistry (s.aggregator.registry.enrol key.normalized c).1,
            s.errands ++ [.ask c], s.minutes⟩ := by
        simp [begin, Aggregator.begun, built, Turn.isConnect]
      obtain ⟨own, name⟩ := StreamKey.command_eq_ok.mp built
      rw [next]
      exact .ask key c _ name.symm own (h.listed.enrol built)
        (Registry.needs_enrol h.listed.orderly built)
  | unsubscribe id =>
    cases removed : s.aggregator.registry.remove? id with
    | none =>
      have same : s.begin (.unsubscribe id) = s := by
        simp [begin, Aggregator.begun, removed, Turn.isConnect]
      rw [same]
      exact .refused _ rfl
    | some pair =>
      obtain ⟨r, t⟩ := pair
      have next : s.begin (.unsubscribe id) = ⟨s.aggregator.withRegistry r,
          s.errands ++ [.retract (t.command.withName "unsubscribe")], s.minutes⟩ := by
        simp [begin, Aggregator.begun, removed, Turn.isConnect]
      obtain ⟨mem, rfl, rfl⟩ := h.listed.orderly.remove?_eq_some removed
      rw [next]
      refine .retract t.id _ _ rfl ⟨t, mem, rfl, rfl⟩ (h.listed.without t.id) ?_ ?_
      · intro args other
        rw [Registry.needs_without]
        constructor
        · rintro ⟨u, hu, -, need⟩
          exact ⟨u, hu, need⟩
        · rintro ⟨u, hu, need⟩
          refine ⟨u, hu, ?_, need⟩
          intro same
          rw [h.listed.orderly.eq_of_id_eq hu mem same] at need
          exact other need.symm
      · intro unshared need
        obtain ⟨u, hu, others, need⟩ := (Registry.needs_without _).mp need
        exact unshared ⟨t, mem, u, hu, rfl, others, rfl, need⟩
  | connect now => exact .connect now
  | error now fault =>
    have next : s.begin (.error now fault) =
        ⟨s.aggregator.onError now .public fault, s.errands, s.minutes⟩ := by
      simp [begin, Aggregator.begun, Turn.isConnect]
    rw [next]
    exact .error now fault

/-- What the next step of an operation does. -/
structure Proceeds (s : Scene) (e : Errand) (s' : Scene) : Prop where
  /-- The operation is under way. -/
  underway : e ∈ s.errands
  /-- Its step is taken. -/
  aggregator : s'.aggregator = (e.step s.aggregator).1
  /-- What it writes is put down. -/
  minutes : s'.minutes =
    s.minutes ++ ((e.spoken? s.aggregator).map fun c => (c, s.aggregator.registry)).toList
  /-- The others go on. -/
  others : ∀ f ∈ s.errands, f = e ∨ f ∈ s'.errands
  /-- What is left of it goes on. -/
  left : ∀ f, (e.step s.aggregator).2 = some f → f ∈ s'.errands
  /-- Nothing else goes on. -/
  only : ∀ f ∈ s'.errands, f ∈ s.errands ∨ (e.step s.aggregator).2 = some f

theorem proceeds (s : Scene) (i : Nat) : s.proceed i = s ∨ ∃ e, Proceeds s e (s.proceed i) := by
  cases there : s.errands[i]? with
  | none => exact .inl (by simp [proceed, there])
  | some e =>
    have cut : s.errands.take i ++ e :: s.errands.drop (i + 1) = s.errands := by
      obtain ⟨lt, own⟩ := List.getElem?_eq_some_iff.mp there
      rw [← own, ← List.drop_eq_getElem_cons, List.take_append_drop]
    have next : s.proceed i = ⟨(e.step s.aggregator).1,
        s.errands.take i ++ (e.step s.aggregator).2.toList ++ s.errands.drop (i + 1),
        s.minutes ++ ((e.spoken? s.aggregator).map fun c => (c, s.aggregator.registry)).toList⟩ := by
      simp [proceed, there]
    rw [next]
    refine .inr ⟨e, List.mem_of_getElem? there, rfl, rfl, ?_, ?_, ?_⟩
    · intro f mem
      rw [← cut] at mem
      simp only [List.mem_append, List.mem_cons] at mem ⊢
      tauto
    · intro f left
      simp [left]
    · intro f mem
      rw [← cut]
      simp only [List.mem_append, List.mem_cons, Option.mem_toList] at mem ⊢
      tauto

/-- The registry and the line of the public channel stay as they are. -/
theorem Proceeds.registry {e : Errand} (h : Proceeds s e s') :
    s'.aggregator.registry = s.aggregator.registry ∧
      s'.aggregator.writers = s.aggregator.writers ∧
      s'.aggregator.board.lines.length = s.aggregator.board.lines.length := by
  obtain ⟨board, step, length⟩ := e.step_fst s.aggregator
  rw [h.aggregator, step]
  exact ⟨rfl, rfl, length⟩

/-! ## What holds at any time -/

theorem sound_fresh (settings : Settings) {ids : Nat → String} (distinct : Function.Injective ids) :
    (fresh settings ids).Sound [] where
  listed := ⟨Registry.orderly_empty distinct, fun _ none => by cases none⟩
  named _ none := by cases none
  laid _ none := by cases none

/-- One more operation is under way. -/
theorem Sound.join (h : s.Sound turns) {turns' : List Turn} {a : Aggregator} {e : Errand}
    {m : Minutes} (listed : a.registry.Listed turns') (named : e.Named)
    (lines : s.aggregator.board.lines.length ≤ a.board.lines.length)
    (laid : ∀ n, e.IsBoundTo n → n < a.board.lines.length) :
    Sound turns' ⟨a, s.errands ++ [e], m⟩ where
  listed := listed
  named f mem := by
    rcases List.mem_append.mp mem with old | new
    · exact h.named f old
    · exact List.mem_singleton.mp new ▸ named
  laid f mem n bound := by
    rcases List.mem_append.mp mem with old | new
    · exact Nat.lt_of_lt_of_le (h.laid f old n bound) lines
    · exact laid n (List.mem_singleton.mp new ▸ bound)

theorem Sound.begin (h : s.Sound turns) (t : Turn) : (s.begin t).Sound (turns ++ [t]) := by
  have mono := h.listed.mono t
  generalize eq : s.begin t = s'
  have begun : Begins turns s t s' := eq ▸ begins h t
  clear eq
  cases begun with
  | refused => exact ⟨mono, h.named, h.laid⟩
  | ask key c r name own listed needs => exact h.join listed name (Nat.le_refl _) fun _ => False.elim
  | retract id c r name own listed others unshared =>
    exact h.join (listed.mono _) name (Nat.le_refl _) fun _ => False.elim
  | connect now =>
    have lines : (s.aggregator.attach.rewired now s.aggregator.board.lines.length).board.lines.length
        = s.aggregator.board.lines.length + 1 := List.length_append ..
    refine h.join mono trivial (by omega) ?_
    rintro n rfl
    omega
  | error now fault => exact ⟨mono, h.named, h.laid⟩

theorem Sound.proceed (h : s.Sound turns) (i : Nat) : (s.proceed i).Sound turns := by
  rcases s.proceeds i with same | ⟨e, next⟩
  · exact same.symm ▸ h
  · obtain ⟨registry, -, length⟩ := next.registry
    constructor
    · rw [registry]
      exact h.listed
    · intro f mem
      rcases next.only f mem with old | left
      · exact h.named f old
      · exact (Errand.of_step left).2.2.2 (h.named e next.underway) fun c hc =>
          h.listed.name_of_mem_commands hc
    · intro f mem n bound
      rw [length]
      rcases next.only f mem with old | left
      · exact h.laid f old n bound
      · exact h.laid e next.underway n ((Errand.of_step left).2.2.1 n bound)

theorem Sound.hangUp (h : s.Sound turns) (n : Nat) : (s.hangUp n).Sound turns where
  listed := h.listed
  named := h.named
  laid e mem m bound := by
    have length : (s.hangUp n).aggregator.board.lines.length = s.aggregator.board.lines.length :=
      List.length_modify ..
    rw [length]
    exact h.laid e mem m bound

theorem sound_after (settings : Settings) {ids : Nat → String} (distinct : Function.Injective ids)
    (acts : List Act) :
    (after settings ids acts).Sound (begunTurns acts) := by
  induction acts using List.reverseRecOn with
  | nil => exact sound_fresh settings distinct
  | append_singleton before next ih =>
    rw [after_concat, begunTurns, List.filterMap_append]
    cases next with
    | begin t => exact ih.begin t
    | proceed i => exact (List.append_nil _).symm ▸ ih.proceed i
    | hangUp n => exact (List.append_nil _).symm ▸ ih.hangUp n

/-! ## What the feed takes to be asked for -/

/-- Some operation under way has yet to write something about a stream. -/
def Awaits (s : Scene) (args : Json.Value) : Prop :=
  ∃ e ∈ s.errands, e.Asks s.aggregator args ∨ e.Retracts args

/-- Where nothing about a stream is yet to be written, the feed and the registry disagree on it exactly
if the last command about it is outdated. -/
def Settled (s : Scene) : Prop :=
  ∀ on, s.aggregator.heard? = some on → ∀ args, s.Awaits args ∨
    ((args ∈ on ↔ s.aggregator.registry.Needs args) ↔ ¬ Outdated s.minutes args)

/-- An operation that changes what is needed of one stream has yet to write about it. -/
theorem Settled.join (h : s.Settled) {r : Registry} {e : Errand} (own : Json.Value)
    (about : ∀ a, e.Asks a own ∨ e.Retracts own)
    (others : ∀ args, args ≠ own → (r.Needs args ↔ s.aggregator.registry.Needs args)) :
    Settled ⟨s.aggregator.withRegistry r, s.errands ++ [e], s.minutes⟩ := by
  intro on up args
  by_cases same : args = own
  · subst same
    exact .inl ⟨e, List.mem_append_right _ (List.mem_singleton_self e), about _⟩
  · have needs := others args same
    rcases h on up args with ⟨f, mem, awaited⟩ | agreed
    · refine .inl ⟨f, List.mem_append_left _ mem, awaited.imp_left ?_⟩
      exact (Errand.asks_withRegistry needs).mpr
    · refine .inr ?_
      show (args ∈ on ↔ r.Needs args) ↔ _
      rw [needs]
      exact agreed

theorem Settled.begin (h : s.Settled) (sound : s.Sound turns) (t : Turn) :
    (s.begin t).Settled := by
  generalize eq : s.begin t = s'
  have begun : Begins turns s t s' := eq ▸ begins sound t
  clear eq
  cases begun with
  | refused => exact h
  | ask key c r name own listed needs =>
    refine h.join c.args (fun _ => .inl rfl) ?_
    intro args other
    rw [needs, or_iff_left other]
  | retract id c r name own listed others unshared =>
    exact h.join c.args (fun _ => .inr rfl) others
  | connect now =>
    -- Nothing was written to the new line, and all that is needed is yet to be copied for it.
    intro on up args
    have silent : on = ∅ := by
      have line : (s.aggregator.attach.rewired now s.aggregator.board.lines.length).line? .public
          = some ⟨.public, true, []⟩ := by
        simp [Aggregator.line?, Aggregator.rewired, Aggregator.attach, Link.Switchboard.attach,
          Link.Switchboard.open?]
      rw [Aggregator.heard?, line] at up
      exact (Option.some.inj up).symm
    by_cases need : s.aggregator.registry.Needs args
    · exact .inl ⟨_, List.mem_append_right _ (List.mem_singleton_self _), .inl ⟨rfl, need⟩⟩
    · refine .inr (iff_of_true (iff_of_false ?_ need) (not_outdated_nil args))
      rw [silent]
      exact Finset.notMem_empty args
  | error now fault =>
    intro on up
    cases up

/-- A step settles the stream that it writes about, and leaves others as they are. -/
theorem Settled.proceed (h : s.Settled) (sound : s.Sound turns) (i : Nat) :
    (s.proceed i).Settled := by
  rcases s.proceeds i with same | ⟨e, next⟩
  · exact same.symm ▸ h
  generalize s.proceed i = s' at next
  obtain ⟨registry, writers, -⟩ := next.registry
  intro on' up' args
  rw [next.aggregator, Aggregator.heard?_step] at up'
  obtain ⟨on, up, rfl⟩ := Option.map_eq_some_iff.mp up'
  have connected : s.aggregator.isConnected .public = true := by
    rw [← Aggregator.isSome_heard?, up]
    rfl
  rw [registry, next.minutes]
  by_cases spoken : ∃ c, e.spoken? s.aggregator = some c ∧ c.args = args
  · obtain ⟨c, speaks, rfl⟩ := spoken
    have named : c.name = "subscribe" ∨ c.name = "unsubscribe" :=
      ((sound.named e next.underway).spoken speaks).imp And.left And.left
    rw [speaks]
    refine .inr ?_
    show (c.args ∈ obey on c ↔ _) ↔ ¬ Outdated (s.minutes ++ [(c, s.aggregator.registry)]) c.args
    rw [mem_obey_self named, outdated_concat_self, not_not]
  · have silent : ∀ c, e.spoken? s.aggregator = some c → c.args ≠ args :=
      fun c speaks own => spoken ⟨c, speaks, own⟩
    rcases h on up args with ⟨f, mem, awaited⟩ | agreed
    · left
      have kept : ∀ g : Errand, g.Asks s.aggregator args → g.Asks s'.aggregator args := fun g =>
        (Errand.asks_congr (congrArg (ByChannel.get · .public) writers) (by rw [registry])).mpr
      rcases next.others f mem with rfl | stays
      · rcases awaited with asks | retracts
        · obtain ⟨g, left, asks⟩ := asks.next connected silent
          exact ⟨g, next.left g left, .inl (kept g asks)⟩
        · exact absurd (retracts.spoken connected) spoken
      · exact ⟨f, stays, awaited.imp_left (kept f)⟩
    · right
      cases speaks : e.spoken? s.aggregator with
      | none => simpa using agreed
      | some c =>
        show (args ∈ obey on c ↔ _) ↔ ¬ Outdated (s.minutes ++ [(c, s.aggregator.registry)]) args
        rw [mem_obey_of_ne (silent c speaks), outdated_concat_of_ne (silent c speaks)]
        exact agreed

theorem Settled.hangUp (h : s.Settled) (n : Nat) : (s.hangUp n).Settled := by
  intro on up
  refine h on ?_
  -- The line of the public channel is still there, so another one went away.
  obtain ⟨line, there, heard⟩ := Option.map_eq_some_iff.mp up
  obtain ⟨m, writer, opened⟩ := Option.bind_eq_some_iff.mp there
  obtain ⟨there, isOpen⟩ := Link.Switchboard.open?_eq_some.mp opened
  have modified : (s.aggregator.board.lines.modify n fun line =>
      { line with isOpen := false, queued := [] })[m]? = some line := there
  rw [List.getElem?_modify] at modified
  obtain ⟨before, lines, eq⟩ := Option.map_eq_some_iff.mp modified
  have unchanged : before = line := by
    split at eq
    · subst eq
      cases isOpen
    · exact eq
  rw [Aggregator.heard?, Aggregator.line?]
  have same : s.aggregator.writers.get .public = some m := writer
  rw [same, Option.bind_some, Link.Switchboard.open?_eq_some.mpr ⟨lines, unchanged ▸ isOpen⟩,
    Option.map_some, unchanged, heard]

theorem settled_after (settings : Settings) {ids : Nat → String} (distinct : Function.Injective ids)
    (acts : List Act) :
    (after settings ids acts).Settled := by
  induction acts using List.reverseRecOn with
  | nil =>
    intro on up
    cases up
  | append_singleton before next ih =>
    have sound := sound_after settings distinct before
    rw [after_concat]
    cases next with
    | begin t => exact ih.begin sound t
    | proceed i => exact ih.proceed sound i
    | hangUp n => exact ih.hangUp n

/-! ## Where nothing crosses -/

/-- An operation begins that will write about a stream while another one has yet to write the
opposite. -/
def Crosses (s : Scene) : Act → Prop
  | .begin (.subscribe key) =>
    ∃ args, key.normalized.args = .ok args ∧ ∃ e ∈ s.errands, e.Retracts args
  | .begin (.unsubscribe id) =>
    ∃ t ∈ s.aggregator.registry.subscriptions, t.id = id ∧
      ∃ e ∈ s.errands, e.Asks s.aggregator t.command.args
  | .begin (.connect _) | .begin (.error ..) | .proceed _ | .hangUp _ => False

/-- All that is yet to be written goes with the registry, and nothing that was written is outdated. -/
structure Calm (s : Scene) : Prop where
  /-- What is yet to be asked for is needed. -/
  asked : ∀ e ∈ s.errands, ∀ args, e.Asks s.aggregator args → s.aggregator.registry.Needs args
  /-- What is yet to be retracted is not. -/
  retracted : ∀ e ∈ s.errands, ∀ args, e.Retracts args → ¬ s.aggregator.registry.Needs args
  /-- The last command about each stream is up to date. -/
  current : ∀ args, ¬ Outdated s.minutes args

theorem calm_fresh (settings : Settings) (ids : Nat → String) : (fresh settings ids).Calm where
  asked _ none := by cases none
  retracted _ none := by cases none
  current := not_outdated_nil

/-- One more operation is under way, and the registry may have changed. -/
theorem Calm.join (h : s.Calm) {a : Aggregator} {e : Errand} {m : Minutes}
    (asked : ∀ f ∈ s.errands, ∀ args, f.Asks a args → a.registry.Needs args)
    (retracted : ∀ f ∈ s.errands, ∀ args, f.Retracts args → ¬ a.registry.Needs args)
    (asks : ∀ args, e.Asks a args → a.registry.Needs args)
    (retracts : ∀ args, e.Retracts args → ¬ a.registry.Needs args)
    (kept : m = s.minutes ∨ m = []) : Calm ⟨a, s.errands ++ [e], m⟩ where
  asked f mem := by
    rcases List.mem_append.mp mem with old | new
    · exact asked f old
    · exact List.mem_singleton.mp new ▸ asks
  retracted f mem := by
    rcases List.mem_append.mp mem with old | new
    · exact retracted f old
    · exact List.mem_singleton.mp new ▸ retracts
  current := by
    rcases kept with rfl | rfl
    · exact h.current
    · exact not_outdated_nil

/-- A stream is asked for that nobody is about to retract. -/
theorem Calm.ask (h : s.Calm) {c : Command} {r : Registry}
    (needs : ∀ args, r.Needs args ↔ s.aggregator.registry.Needs args ∨ args = c.args)
    (uncrossed : ∀ e ∈ s.errands, ¬ e.Retracts c.args) :
    Calm ⟨s.aggregator.withRegistry r, s.errands ++ [.ask c], s.minutes⟩ := by
  refine h.join ?_ ?_ ?_ ?_ (.inl rfl)
  · intro e mem args asks
    by_cases same : args = c.args
    · exact (needs args).mpr (.inr same)
    · have unchanged : r.Needs args ↔ s.aggregator.registry.Needs args := by
        rw [needs, or_iff_left same]
      exact unchanged.mpr (h.asked e mem args ((Errand.asks_withRegistry unchanged).mp asks))
  · intro e mem args retracts need
    rcases (needs args).mp need with before | rfl
    · exact h.retracted e mem args retracts before
    · exact uncrossed e mem retracts
  · intro args own
    exact (needs args).mpr (.inr own.symm)
  · rintro args ⟨⟩

/-- A stream is dropped that nothing else needs and nobody is about to ask for. -/
theorem Calm.retract (h : s.Calm) {c : Command} {r : Registry}
    (others : ∀ args, args ≠ c.args → (r.Needs args ↔ s.aggregator.registry.Needs args))
    (dropped : ¬ r.Needs c.args) (uncrossed : ∀ e ∈ s.errands, ¬ e.Asks s.aggregator c.args) :
    Calm ⟨s.aggregator.withRegistry r, s.errands ++ [.retract c], s.minutes⟩ := by
  refine h.join ?_ ?_ ?_ ?_ (.inl rfl)
  · intro e mem args asks
    by_cases same : args = c.args
    · subst same
      cases e with
      | copy n => exact absurd asks.2 dropped
      | recite | ask | retract => exact absurd asks (uncrossed _ mem)
    · have unchanged := others args same
      exact unchanged.mpr (h.asked e mem args ((Errand.asks_withRegistry unchanged).mp asks))
  · intro e mem args retracts need
    by_cases same : args = c.args
    · exact dropped (same ▸ need)
    · exact h.retracted e mem args retracts ((others args same).mp need)
  · rintro args ⟨⟩
  · rintro args own need
    exact dropped (own ▸ need)

/-- A new line comes up, to which no operation that is under way is bound. -/
theorem Calm.connect (h : s.Calm) (sound : s.Sound turns) (now : Moment) :
    Calm ⟨s.aggregator.attach.rewired now s.aggregator.board.lines.length,
      s.errands ++ [.copy s.aggregator.board.lines.length], []⟩ := by
  refine h.join ?_ h.retracted ?_ ?_ (.inr rfl)
  · intro e mem args asks
    have lines := sound.laid e mem s.aggregator.board.lines.length
    cases e with
    | copy n => exact absurd (lines (Option.some.inj asks.1).symm) (Nat.lt_irrefl _)
    | recite n cs => exact absurd (lines (Option.some.inj asks.1).symm) (Nat.lt_irrefl _)
    | ask c => exact h.asked _ mem args asks
    | retract c => cases asks
  · intro args asks
    exact asks.2
  · rintro args ⟨⟩

/-- The public channel fails. -/
theorem Calm.error (h : s.Calm) (now : Moment) (fault : Fault) :
    Calm ⟨s.aggregator.onError now .public fault, s.errands, s.minutes⟩ := by
  refine ⟨?_, h.retracted, h.current⟩
  intro e mem args asks
  cases e with
  | copy n => cases asks.1
  | recite n cs => cases asks.1
  | ask c => exact h.asked _ mem args asks
  | retract c => cases asks

theorem Calm.begin (h : s.Calm) (sound : s.Sound turns) {t : Turn}
    (apart : ∀ id args, ¬ s.aggregator.registry.Shares id args) (uncrossed : ¬ s.Crosses (.begin t)) :
    (s.begin t).Calm := by
  generalize eq : s.begin t = s'
  have begun : Begins turns s t s' := eq ▸ begins sound t
  clear eq
  cases begun with
  | refused => exact h
  | ask key c r name own listed needs =>
    exact h.ask needs fun e mem retracts => uncrossed ⟨c.args, own, e, mem, retracts⟩
  | retract id c r name own listed others unshared =>
    obtain ⟨t, ht, same_id, same_args⟩ := own
    refine h.retract others (unshared (apart id c.args)) ?_
    intro e mem asks
    exact uncrossed ⟨t, ht, same_id, e, mem, same_args.symm ▸ asks⟩
  | connect now => exact h.connect sound now
  | error now fault => exact h.error now fault

theorem Calm.proceed (h : s.Calm) (sound : s.Sound turns) (i : Nat) : (s.proceed i).Calm := by
  rcases s.proceeds i with same | ⟨e, next⟩
  · exact same.symm ▸ h
  generalize s.proceed i = s' at next
  obtain ⟨registry, writers, -⟩ := next.registry
  have asks_iff : ∀ (f : Errand) args, f.Asks s'.aggregator args ↔ f.Asks s.aggregator args :=
    fun f args => Errand.asks_congr (congrArg (ByChannel.get · .public) writers) (by rw [registry])
  refine ⟨?_, ?_, ?_⟩
  · intro f mem args asks
    rw [registry]
    rw [asks_iff] at asks
    rcases next.only f mem with old | left
    · exact h.asked f old args asks
    · exact h.asked e next.underway args ((Errand.of_step left).1 args asks)
  · intro f mem args retracts
    rw [registry]
    rcases next.only f mem with old | left
    · exact h.retracted f old args retracts
    · exact absurd retracts ((Errand.of_step left).2.1 args)
  · intro args
    rw [next.minutes]
    cases speaks : e.spoken? s.aggregator with
    | none => simpa using h.current args
    | some c =>
      show ¬ Outdated (s.minutes ++ [(c, s.aggregator.registry)]) args
      by_cases same : c.args = args
      · subst same
        rw [outdated_concat_self, not_not]
        rcases (sound.named e next.underway).spoken speaks with ⟨name, asks⟩ | ⟨name, retracts⟩
        · exact iff_of_true name (h.asked e next.underway c.args asks)
        · refine iff_of_false ?_ (h.retracted e next.underway c.args retracts)
          rw [name]
          decide
      · rw [outdated_concat_of_ne same]
        exact h.current args

/-- Streams that were asked for by different keys have different arguments. -/
def Distinct (turns : List Turn) : Prop :=
  ∀ k l, .subscribe k ∈ turns → .subscribe l ∈ turns → ∀ args,
    k.normalized.args = .ok args → l.normalized.args = .ok args → k.normalized = l.normalized

theorem Distinct.not_shares (h : Distinct turns) {r : Registry} (listed : r.Listed turns)
    (id : String) (args : Json.Value) : ¬ r.Shares id args := by
  intro shares
  obtain ⟨k, l, asked, asked', respelled, own, own'⟩ := listed.respelled_of_shares shares
  exact respelled.market (congrArg StreamKey.market (h k l asked asked' args own own'))

/-- No operation of a run crosses another. -/
def Uncrossed (settings : Settings) (ids : Nat → String) (acts : List Act) : Prop :=
  ∀ before next later, acts = before ++ next :: later → ¬ (after settings ids before).Crosses next

theorem calm_after {settings : Settings} {ids : Nat → String} {acts : List Act}
    (distinct : Function.Injective ids) (apart : Distinct (begunTurns acts))
    (uncrossed : Uncrossed settings ids acts) : (after settings ids acts).Calm := by
  induction acts using List.reverseRecOn with
  | nil => exact calm_fresh settings ids
  | append_singleton before next ih =>
    have sound := sound_after settings distinct before
    have earlier : ∀ t, t ∈ begunTurns before →
        t ∈ begunTurns (before ++ [next]) := by
      intro t mem
      rw [begunTurns, List.filterMap_append]
      exact List.mem_append_left _ mem
    have apart_before : Distinct (begunTurns before) := fun k l hk hl =>
      apart k l (earlier _ hk) (earlier _ hl)
    have calm := ih apart_before fun past act later eq =>
      uncrossed past act (later ++ [next]) (by rw [eq, List.append_assoc, List.cons_append])
    rw [after_concat]
    cases next with
    | begin t =>
      refine calm.begin sound ?_ (uncrossed before (.begin t) [] rfl)
      exact apart_before.not_shares sound.listed
    | proceed i => exact calm.proceed sound i
    | hangUp n => exact ⟨calm.asked, calm.retracted, calm.current⟩

end Scene

/-- **Once all is done, the feed agrees with the registry, unless the last command is outdated.** Ids
are distinct. Take any number of operations whose steps happen in any order, up to a moment when all
have ended and the public channel is up. A stream is on at the feed exactly if a registered subscription
needs it, unless the last command about it did not go with the registry when it was written; then it is
on though nothing needs it, or off though something does. No command is outdated, and the feed and the
registry agree on every stream, if different keys have different arguments and no operation on a stream
begins while another one has yet to write the opposite. -/
theorem feed_agrees_unless_outdated (settings : Settings) {ids : Nat → String}
    (distinct : Function.Injective ids) (acts : List Act) :
    let s := Scene.after settings ids acts
    (s.errands = [] → ∀ on, s.aggregator.heard? = some on → ∀ args,
      (args ∈ on ↔ s.aggregator.registry.Needs args) ↔ ¬ Outdated s.minutes args) ∧
    (Scene.Distinct (begunTurns acts) → Scene.Uncrossed settings ids acts →
      s.errands = [] → ∀ on, s.aggregator.heard? = some on → ∀ args,
        args ∈ on ↔ s.aggregator.registry.Needs args) := by
  intro s
  have agreed : s.errands = [] → ∀ on, s.aggregator.heard? = some on → ∀ args,
      (args ∈ on ↔ s.aggregator.registry.Needs args) ↔ ¬ Outdated s.minutes args := by
    intro quiet on up args
    rcases Scene.settled_after settings distinct acts on up args with ⟨e, mem, -⟩ | agreed
    · rw [show (Scene.after settings ids acts).errands = [] from quiet] at mem
      cases mem
    · exact agreed
  refine ⟨agreed, ?_⟩
  intro apart uncrossed quiet on up args
  exact (agreed quiet on up args).mpr ((Scene.calm_after distinct apart uncrossed).current args)

/-- A stream that is asked for on a first line, the first step of a second line, and the commands of
the registry as they are copied for it. -/
def upToCopy (key : StreamKey) : List Act :=
  [.begin (.connect ⟨0, ""⟩), .proceed 0, .proceed 0, .begin (.subscribe key), .proceed 0,
    .begin (.connect ⟨0, ""⟩), .proceed 0]

/-- A stream that is dropped while the commands of the registry are on their way to a new line: it is
retracted first and asked for afterwards, and is still on when all is done. If the commands are written
before it is dropped, it is off on the new line, and still on for a feed that reads from the old one. -/
theorem replay_undoes_unsubscribe :
    let key : StreamKey := ⟨"price", "A", "1", none, false⟩
    let args := Json.Value.ofList [("t", .string "price"), ("i", .string "A"), ("m", .ofInt64 1)]
    let late := upToCopy key ++ [.begin (.unsubscribe "$1"), .proceed 1, .proceed 0, .proceed 0]
    let early := upToCopy key ++ [.proceed 0, .proceed 0, .begin (.unsubscribe "$1"), .proceed 0]
    let s := Scene.after .standard Registry.serialIds late
    let s' := Scene.after .standard Registry.serialIds early
    (Scene.Distinct (begunTurns late) ∧ s.errands = [] ∧ s.aggregator.registry.subscriptions = [] ∧
      s.aggregator.heard? = some {args}) ∧
    (s'.errands = [] ∧ s'.aggregator.registry.subscriptions = [] ∧ s'.aggregator.heard? = some ∅ ∧
      (s'.aggregator.board.open? 0).map (fun line => heard line.queued) = some {args}) := by
  intro key args late early s s'
  refine ⟨⟨?_, by decide +kernel⟩, by decide +kernel⟩
  intro k l asked asked'
  have one : ∀ k, .subscribe k ∈ begunTurns late → k = key := by
    simp [late, upToCopy, begunTurns]
  intro _ _ _
  rw [one k asked, one l asked']

/-- Steps in that order end with a stream on that nothing needs, so the last command about it is
outdated. -/
theorem feed_agrees_unless_outdated_sample :
    let key : StreamKey := ⟨"price", "A", "1", none, false⟩
    let args := Json.Value.ofList [("t", .string "price"), ("i", .string "A"), ("m", .ofInt64 1)]
    let acts := upToCopy key ++ [.begin (.unsubscribe "$1"), .proceed 1, .proceed 0, .proceed 0]
    let s := Scene.after .standard Registry.serialIds acts
    s.errands = [] ∧ s.aggregator.heard? = some {args} ∧ ¬ s.aggregator.registry.Needs args ∧
      Outdated s.minutes args := by
  intro key args acts s
  obtain ⟨agreed, -⟩ :=
    feed_agrees_unless_outdated .standard Registry.serialIds_injective acts
  have quiet : s.errands = [] := by decide +kernel
  have up : s.aggregator.heard? = some {args} := by decide +kernel
  have dropped : s.aggregator.registry.subscriptions = [] := by decide +kernel
  -- What follows does not look at the steps again.
  have named : s = Scene.after .standard Registry.serialIds acts := rfl
  rw [← named] at agreed
  clear_value s
  have unneeded : ¬ s.aggregator.registry.Needs args := by
    rintro ⟨t, ht, -⟩
    rw [dropped] at ht
    cases ht
  refine ⟨quiet, up, unneeded, ?_⟩
  by_contra current
  have both := (agreed quiet _ up args).mpr current
  exact unneeded (both.mp (Finset.mem_singleton_self args))

end MarketStream
