import MarketStream.Quote.Selector

/-!
# One selector after another

Two selectors put one after another walk a history once, and the second is asked about an entry
as soon as the first has included it. They select what the second selects from the answer of the
first: where the second stops the walk the first might have gone on, but what it would still
include is not looked at by the second either.

* `Selector.Walks` — a walk with one selector, entry by entry until it stops;
* `Selector.walks_iff` — there is one such walk, and it includes what a run gives;
* `Selector.runFrom_andThen` — the one walk of two selectors;
* `History.select_andThen` — what two selectors select, and three.
-/

namespace MarketStream.Quote

open History

/-- What a verdict on an entry adds to an answer. -/
def Verdict.gain (v : Verdict) (e : Entry) : List Entry := if v.includes then [e] else []

namespace Selector

/-- A walk with a selector that is in a given state, from the newest entry back until the selector
stops or no entry is left, with the entries that it includes. -/
inductive Walks (sel : Selector) : sel.State → List Entry → List Entry → Prop where
  /-- No entry is left. -/
  | ended {s : sel.State} : Walks sel s [] []
  /-- The selector stops at an entry, whether it includes it or not. -/
  | stop {s : sel.State} {e : Entry} {older : List Entry}
      (stops : (sel.check s e).2.stops = true) :
      Walks sel s (e :: older) ((sel.check s e).2.gain e)
  /-- The selector goes on from an entry, whether it includes it or not. -/
  | next {s : sel.State} {e : Entry} {older included : List Entry}
      (goesOn : (sel.check s e).2.stops = false)
      (rest : Walks sel (sel.check s e).1 older included) :
      Walks sel s (e :: older) ((sel.check s e).2.gain e ++ included)

/-- One step of a run. -/
theorem runFrom_cons (sel : Selector) (s : sel.State) (e : Entry) (older : List Entry) :
    sel.runFrom s (e :: older) = (sel.check s e).2.gain e
      ++ if (sel.check s e).2.stops then [] else sel.runFrom (sel.check s e).1 older := by
  rw [runFrom, Verdict.gain]
  dsimp only
  split <;> rfl

theorem runFrom_of_check {sel : Selector} {s s' : sel.State} {v : Verdict} {e : Entry}
    (checked : sel.check s e = (s', v)) (older : List Entry) :
    sel.runFrom s (e :: older) = v.gain e ++ if v.stops then [] else sel.runFrom s' older := by
  rw [runFrom_cons, checked]

/-- A walk includes what a run gives, and there always is one. -/
theorem walks_iff {sel : Selector} {s : sel.State} {entries included : List Entry} :
    sel.Walks s entries included ↔ sel.runFrom s entries = included := by
  constructor
  · intro walks
    induction walks with
    | ended => rfl
    | stop stops => rw [runFrom_cons, if_pos stops, List.append_nil]
    | next goesOn _ ih => rw [runFrom_cons, goesOn, if_neg Bool.false_ne_true, ih]
  · rintro rfl
    induction entries generalizing s with
    | nil => exact .ended
    | cons e older ih =>
      rw [runFrom_cons]
      cases stops : (sel.check s e).2.stops with
      | true =>
        rw [if_pos rfl, List.append_nil]
        exact .stop stops
      | false =>
        rw [if_neg Bool.false_ne_true]
        exact .next stops ih

section

variable {first second : Selector} {s : first.State} {t : second.State} {e : Entry}

/-- What two selectors remember together. -/
def joint (s : first.State) (t : second.State) : (first.andThen second).State := (s, t)

/-- An entry that the first selector includes is shown to the second. -/
theorem check_andThen_of_includes (h : (first.check s e).2.includes = true) :
    (first.andThen second).check (joint s t) e
      = (joint (first.check s e).1 (second.check t e).1,
        ⟨(second.check t e).2.includes,
          (first.check s e).2.stops || (second.check t e).2.stops⟩) :=
  if_pos h

/-- An entry that the first selector does not include is not shown to the second. -/
theorem check_andThen_of_excludes (h : (first.check s e).2.includes = false) :
    (first.andThen second).check (joint s t) e
      = (joint (first.check s e).1 t, (first.check s e).2) :=
  if_neg (Bool.not_eq_true _ ▸ h)

end

/-- **One walk for two.** Two selectors that walk together include what the second includes of the
entries that the first includes, whatever they remember. -/
theorem runFrom_andThen (first second : Selector) (s : first.State) (t : second.State)
    (entries : List Entry) :
    (first.andThen second).runFrom (joint s t) entries
      = second.runFrom t (first.runFrom s entries) := by
  induction entries generalizing s t with
  | nil => rfl
  | cons e older ih =>
    rw [runFrom_cons, runFrom_cons first]
    cases includes : (first.check s e).2.includes with
    | true =>
      have shown : (first.check s e).2.gain e = [e] := if_pos includes
      rw [check_andThen_of_includes includes, shown, List.singleton_append, runFrom_cons second]
      cases stops : (first.check s e).2.stops with
      | true =>
        -- The first selector stops, so the second is shown nothing after this entry.
        rw [if_pos rfl]
        cases (second.check t e).2.stops <;> rfl
      | false =>
        rw [if_neg Bool.false_ne_true, Bool.false_or, ih]
    | false =>
      have hidden : (first.check s e).2.gain e = [] := if_neg (by simp [includes])
      rw [check_andThen_of_excludes includes, hidden, List.nil_append, List.nil_append]
      cases stops : (first.check s e).2.stops with
      | true => rfl
      | false => rw [if_neg Bool.false_ne_true, if_neg Bool.false_ne_true, ih]

theorem run_andThen (first second : Selector) (entries : List Entry) :
    (first.andThen second).run entries = second.run (first.run entries) :=
  runFrom_andThen first second first.start second.start entries

end Selector

/-- **One selector after another.** On every history and for any two selectors, whatever they
remember and wherever they stop: what they select together is what the second includes when it walks
over the entries that the first includes when it walks over the history, each alone and until it
stops, put from the oldest to the newest. Hence it does not matter how three selectors are put
together. -/
theorem History.select_andThen (h : History) (first second : Selector) :
    (∀ selected, h.select (first.andThen second) = selected ↔
      ∃ included, first.Walks first.start h.backward included ∧
        second.Walks second.start included selected.reverse) ∧
    ∀ third, h.select ((first.andThen second).andThen third)
      = h.select (first.andThen (second.andThen third)) := by
  constructor
  · intro selected
    simp only [Selector.walks_iff, exists_eq_left']
    rw [History.select, Selector.run_andThen, List.reverse_eq_iff]
    rfl
  · intro third
    simp only [History.select, Selector.run_andThen]

end MarketStream.Quote
