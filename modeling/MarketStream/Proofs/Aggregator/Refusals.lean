import MarketStream.Proofs.Aggregator.RoundTrip
import MarketStream.Proofs.Registry.Requests

/-!
# Requests that are refused

A request to an aggregator is refused for one of two reasons. Either it asks for something that
cannot be done: it cannot be read, its stream cannot be asked for, or what it names is not there.
This is found out before anything is done. Or a stream is to be asked for while the public channel
is down: its subscription is registered before that is found out, and stays.

* `AdminRequest.isQuery` — requests that only want to know something; `execute_of_isQuery`;
* `Enlists` — all that a subscription changes while the public channel is down;
* `subscribe_refused`, `unsubscribe_refused`, `execute_refused` — what refused requests leave;
* `refused_changes_nothing` — the same of texts.
-/

namespace MarketStream

/-- A request that only wants to know something. -/
def AdminRequest.isQuery : AdminRequest → Bool
  | .last _ _ _ _ | .orders | .state _ _ | .status => true
  | .subscribe _ | .unsubscribe _ => false

/-- What a channel that is down refuses. -/
def Fault.IsDown (e : Fault) : Prop := ∃ channel, e = .notConnected channel

/-- An answer that is put in another form is an error only if it was. -/
theorem error_of_map {α β : Type} {answer : Except Fault α} {form : α → β} {e : Fault}
    (h : answer.map form = .error e) : answer = .error e := by
  cases answer with
  | error fault => exact congrArg Except.error (Except.error.inj h)
  | ok value => cases h

/-- That a stream cannot be asked for does not depend on any channel. -/
theorem StreamKey.not_isDown_of_command {k : StreamKey} {action : String} {e : Fault}
    (unbuilt : k.command action = .error e) : ¬ e.IsDown := by
  rintro ⟨channel, rfl⟩
  have unbuilt : k.args = .error (.notConnected channel) := error_of_map unbuilt
  rw [args] at unbuilt
  split at unbuilt
  · split at unbuilt <;> cases unbuilt
  · split at unbuilt <;> cases unbuilt
  · split at unbuilt <;> cases unbuilt
  · split at unbuilt <;> cases unbuilt
  · cases unbuilt
  · split at unbuilt <;> cases unbuilt
  · cases unbuilt

namespace Aggregator

variable {a : Aggregator}

/-! ## Requests one by one -/

theorem execute_of_isQuery {r : AdminRequest} (query : r.isQuery = true) :
    (a.execute r).1 = a := by
  cases r with
  | subscribe | unsubscribe => cases query
  | last | orders | state | status => rfl

/-- Nothing changed but that a stream, if it had no subscription, has one: the newest of all, under
the next id, with the command that asks for the stream. -/
def Enlists (a : Aggregator) (key : StreamKey) (after : Aggregator) : Prop :=
  let r := a.registry
  r.find? key ≠ none ∧ after = a ∨
    r.find? key = none ∧ ∃ c, key.command "subscribe" = .ok c ∧ after = a.withRegistry
      { r with
        subscriptions := r.subscriptions ++ [⟨r.ids (r.issued + 1), some key, c⟩]
        issued := r.issued + 1 }

/-- While the public channel is down, a stream is registered and nothing is sent. -/
theorem subscribe_of_down {key : StreamKey} {c : Command}
    (built : key.normalized.command "subscribe" = .ok c) (down : a.isConnected .public = false) :
    a.subscribe key =
      (a.withRegistry (a.registry.enrol key.normalized c).1, .error (.notConnected .public)) := by
  have unsent := send_of_down (a := a.withRegistry (a.registry.enrol key.normalized c).1) down [c]
  rw [subscribe_of_ok built, unsent, down]
  rfl

/-- A subscription is refused because its stream cannot be asked for, which changes nothing, or
because the public channel is down, which does not keep it from being registered. -/
theorem subscribe_refused {key : StreamKey} {e : Fault} (refused : (a.subscribe key).2 = .error e) :
    ¬ e.IsDown ∧ (a.subscribe key).1 = a ∨
      e = .notConnected .public ∧ a.isConnected .public = false ∧
        a.Enlists key.normalized (a.subscribe key).1 := by
  cases built : key.normalized.command "subscribe" with
  | error fault =>
    rw [subscribe_of_error built] at refused ⊢
    cases refused
    exact .inl ⟨StreamKey.not_isDown_of_command built, rfl⟩
  | ok c =>
    cases connected : a.isConnected .public with
    | true =>
      rw [subscribe_of_ok built, connected] at refused
      cases refused
    | false =>
      rw [subscribe_of_down built connected] at refused ⊢
      cases refused
      refine .inr ⟨rfl, rfl, ?_⟩
      cases found : a.registry.find? key.normalized with
      | some s =>
        rw [Registry.enrol_of_some found]
        exact .inl ⟨by rw [found]; exact Option.some_ne_none s, rfl⟩
      | none =>
        rw [Registry.enrol_of_none found]
        exact .inr ⟨found, c, built, rfl⟩

/-- Dropping a subscription is refused only if it is not there. -/
theorem unsubscribe_refused {id : String} {e : Fault} (refused : (a.unsubscribe id).2 = .error e) :
    ¬ e.IsDown ∧ (a.unsubscribe id).1 = a := by
  cases removed : a.registry.remove? id with
  | none =>
    rw [unsubscribe_of_none removed] at refused ⊢
    cases refused
    refine ⟨?_, rfl⟩
    rintro ⟨channel, same⟩
    cases same
  | some result =>
    rw [unsubscribe_of_some removed] at refused
    cases refused

/-- A request is refused without a change, unless it is for a stream while the public channel is
down. -/
theorem execute_refused {r : AdminRequest} {e : Fault} (refused : (a.execute r).2 = .error e) :
    ¬ e.IsDown ∧ (a.execute r).1 = a ∨
      ∃ key, r = .subscribe key ∧ e = .notConnected .public ∧ a.isConnected .public = false ∧
        a.Enlists key.normalized (a.execute r).1 := by
  cases r with
  | subscribe key =>
    rcases subscribe_refused (error_of_map refused) with unchanged | enlisted
    · exact .inl unchanged
    · exact .inr ⟨key, rfl, enlisted⟩
  | unsubscribe id => exact .inl (unsubscribe_refused (error_of_map refused))
  | last kindName identifier market source =>
    refine .inl ⟨?_, rfl⟩
    rintro ⟨channel, rfl⟩
    have absent : a.last ⟨kindName, identifier, market, source, false⟩
        = .error (.notConnected channel) := error_of_map refused
    rw [last] at absent
    split at absent <;> cases absent
  | orders | state | status => cases refused

/-! ## Texts -/

theorem handle_of_decoded {data : Bytes} {r : AdminRequest}
    (decoded : AdminRequest.decode? data = some r) :
    a.handle data = ((a.execute r).1, (a.execute r).2.map fun v => utf8 v.write) := by
  rw [handle, decoded]

/-- **Refused requests change nothing**, and neither do those that only want to know something.
Whatever the state and whatever the text, if the answer is an error, nothing has changed and nothing
was sent; unless the error is that a channel is down, when the text asks for a stream, the channel
is the public one, and all that changed is that the stream, if it had no subscription, has one. A
text that asks for a snapshot, for the orders, for the snapshots there are or for the status changes
nothing, whatever the answer. -/
theorem refused_changes_nothing (a : Aggregator) (data : Bytes) :
    let after := (a.handle data).1
    let answer := (a.handle data).2
    (∀ e, answer = .error e → ¬ e.IsDown → after = a) ∧
    (∀ e, answer = .error e → e.IsDown → ∃ key,
      AdminRequest.decode? data = some (.subscribe key) ∧ e = .notConnected .public ∧
        a.isConnected .public = false ∧ a.Enlists key.normalized after) ∧
    (∀ r, AdminRequest.decode? data = some r → r.isQuery = true → after = a) := by
  intro after answer
  cases decoded : AdminRequest.decode? data with
  | none =>
    have handled : a.handle data = (a, .error .unreadable) := by rw [handle, decoded]
    have unchanged : after = a := congrArg Prod.fst handled
    refine ⟨fun _ _ _ => unchanged, ?_, fun _ _ _ => unchanged⟩
    rintro e failed ⟨channel, rfl⟩
    rw [show answer = .error .unreadable from congrArg Prod.snd handled] at failed
    cases failed
  | some r =>
    have after_eq : after = (a.execute r).1 := congrArg Prod.fst (handle_of_decoded decoded)
    have answer_eq : answer = (a.execute r).2.map fun v => utf8 v.write :=
      congrArg Prod.snd (handle_of_decoded decoded)
    rw [after_eq, answer_eq]
    refine ⟨?_, ?_, ?_⟩
    · intro e failed up
      rcases execute_refused (error_of_map failed) with ⟨-, unchanged⟩ | ⟨key, -, down, -⟩
      · exact unchanged
      · exact absurd ⟨.public, down⟩ up
    · intro e failed down
      rcases execute_refused (error_of_map failed) with ⟨up, -⟩ | ⟨key, asked, enlisted⟩
      · exact absurd down up
      · exact ⟨key, asked ▸ rfl, enlisted⟩
    · rintro _ ⟨⟩ query
      exact execute_of_isQuery query

/-- While the public channel is down, a stream whose market is no number is refused and forgotten,
and one that can be asked for is refused and kept. -/
theorem refused_changes_nothing_sample :
    let a := fresh .standard (fun n => "S" ++ String.ofList (Text.natural n))
    let key : String → StreamKey := fun market => ⟨"price", "A", market, none, false⟩
    let ask : String → Bytes := fun market => utf8 (AdminRequest.subscribe (key market)).write
    (a.handle (ask "x")).1 = a ∧ a.Enlists (key "1") (a.handle (ask "1")).1 ∧
      (a.handle (ask "1")).1.registry.subscriptions.map Subscription.key = [some (key "1")] := by
  intro a key ask
  have decoded : ∀ market, AdminRequest.decode? (ask market) = some (.subscribe (key market)) :=
    fun market => AdminRequest.decode?_write (.subscribe (key market))
  have unbuilt : (key "x").normalized.command "subscribe" =
      .error (.unbuildable "market 'x' of price subscription is not numeric") := by decide +kernel
  have built : (key "1").normalized.command "subscribe" = .ok ⟨"subscribe", .ofList
      [("t", .string "price"), ("i", .string "A"), ("m", .ofInt64 1)]⟩ := by decide +kernel
  have refused : (a.handle (ask "x")).2 =
      .error (.unbuildable "market 'x' of price subscription is not numeric") := by
    rw [handle_of_decoded (decoded "x"), execute, subscribe_of_error unbuilt]
    rfl
  have down : (a.handle (ask "1")).2 = .error (.notConnected .public) := by
    rw [handle_of_decoded (decoded "1"), execute, subscribe_of_down built rfl]
    rfl
  refine ⟨(refused_changes_nothing a (ask "x")).1 _ refused ?_, ?_, ?_⟩
  · rintro ⟨channel, same⟩
    cases same
  · obtain ⟨_, asked, -, -, enlisted⟩ :=
      (refused_changes_nothing a (ask "1")).2.1 _ down ⟨.public, rfl⟩
    cases (decoded "1").symm.trans asked
    exact enlisted
  · rw [handle_of_decoded (decoded "1"), execute, subscribe_of_down built rfl]
    rfl

end Aggregator

end MarketStream
