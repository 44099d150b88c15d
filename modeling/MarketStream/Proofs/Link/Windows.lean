import Mathlib.Data.List.Basic
import MarketStream.Link.Backoff

/-!
# Failures window by window

The times of failures fall into windows: a failure that comes later than a window's length after the
one that opened the present window opens the next one. Which entry of the table a failure waits for
depends on its place in its window alone. Where the end of a window is beyond what the clock can
show, there is no answer to the failure that would open it, and none after that.

* `Backoff.answers` — the delays after failures one after another, and the counts that they leave;
* `Window`, `windows` — the failures of one window, and all windows;
* `next?_of_open`, `next?_of_shut` — what one failure does;
* `answers_by_windows` — what any failures do;
* `overlong_window_unanswered` — that there may be no answer.
-/

namespace MarketStream.Link.Backoff

/-- The delays after failures at some times, each with the count that it leaves, up to the first
failure that opens a window whose end the clock cannot show. -/
def answers (b : Backoff) : List Nat → List (Nat × Nat)
  | [] => []
  | t :: later =>
    match b.next? t with
    | some (delay, next) => (delay, next.count) :: next.answers later
    | none => []

/-- The delay after the failure at a place of its window, counted from zero, and the count that it
leaves: the last entry of the table repeats, and an empty table has zeros. -/
def answerAt (table : List Nat) (k : Nat) : Nat × Nat :=
  ((table[min k (table.length - 1)]?).getD 0, k + 1)

/-! ## One failure -/

variable {b : Backoff} {t e : Nat}

/-- A failure in the present window is the next one of it. -/
theorem next?_of_open (present : b.windowEnd = some e) (within : t ≤ e) :
    b.next? t = some ((answerAt b.delays b.count).1, { b with count := b.count + 1 }) := by
  have isOpen : b.isOpenAt t = true := by
    rw [isOpenAt, present]
    exact decide_eq_true within
  rw [next?, if_pos isOpen]
  rfl

/-- A failure has opened a window. -/
def reopen (b : Backoff) (t : Nat) : Backoff :=
  { b with count := 1, windowEnd := some (t + b.windowSecs * 1000) }

/-- A failure that is in no window opens one, if the clock can show its end. -/
theorem next?_of_shut (shut : b.isOpenAt t = false) :
    b.next? t = if t / 1000 + b.windowSecs < clockLimit then
      some ((answerAt b.delays 0).1, b.reopen t) else none := by
  rw [next?, shut]
  rfl

/-! ## Windows -/

/-- The failures of one window. -/
structure Window where
  /-- The time of the first one. -/
  opening : Nat
  /-- The times of the others. -/
  others : List Nat
deriving DecidableEq

namespace Window

/-- The times of all failures of a window. -/
def failures (w : Window) : List Nat := w.opening :: w.others

/-- What the failures of a window are answered by. -/
def answers (table : List Nat) (w : Window) : List (Nat × Nat) :=
  (List.range w.failures.length).map (answerAt table)

/-- The clock can show the end of a window of some seconds. -/
def isShown (secs : Nat) (w : Window) : Bool := decide (w.opening / 1000 + secs < clockLimit)

theorem answers_eq_cons (table : List Nat) (w : Window) :
    w.answers table
      = answerAt table 0 :: (List.range' 1 w.others.length).map (answerAt table) := by
  rw [answers, failures, List.length_cons, List.range_eq_range', List.range'_succ, List.map_cons]

end Window

/-- The failures that belong to a window which is open already, and the windows after it. -/
def fill (length opening : Nat) : List Nat → List Nat × List Window
  | [] => ([], [])
  | t :: later =>
    if t ≤ opening + length then
      match fill length opening later with
      | (others, next) => (t :: others, next)
    else
      match fill length t later with
      | (others, next) => ([], ⟨t, others⟩ :: next)

/-- The windows that failures fall into. -/
def windows (length : Nat) : List Nat → List Window
  | [] => []
  | t :: later =>
    match fill length t later with
    | (others, next) => ⟨t, others⟩ :: next

section

variable {length opening : Nat} {later : List Nat}

theorem fill_of_le (within : t ≤ opening + length) :
    fill length opening (t :: later)
      = (t :: (fill length opening later).1, (fill length opening later).2) := if_pos within

theorem fill_of_lt (late : opening + length < t) :
    fill length opening (t :: later) = ([], windows length (t :: later)) :=
  if_neg (Nat.not_le.mpr late)

end

/-- Filling a window takes failures off the front, all within its length; the others are in later
windows, each more than the length after the one before. -/
theorem fill_spec (length opening : Nat) (times : List Nat) :
    (fill length opening times).1 ++ (fill length opening times).2.flatMap Window.failures = times ∧
      (∀ t ∈ (fill length opening times).1, t ≤ opening + length) ∧
      (∀ w ∈ (fill length opening times).2,
        opening + length < w.opening ∧ ∀ t ∈ w.others, t ≤ w.opening + length) ∧
      (fill length opening times).2.Pairwise fun v w => v.opening + length < w.opening := by
  -- A late failure opens the next window itself, so the induction is for any opening.
  induction times generalizing opening with
  | nil => exact ⟨rfl, List.forall_mem_nil _, List.forall_mem_nil _, .nil⟩
  | cons t later ih =>
    by_cases within : t ≤ opening + length
    · obtain ⟨joined, inside, after, apart⟩ := ih opening
      rw [fill_of_le within]
      exact ⟨congrArg (t :: ·) joined, List.forall_mem_cons.mpr ⟨within, inside⟩, after, apart⟩
    · have late : opening + length < t := Nat.not_le.mp within
      obtain ⟨joined, inside, after, apart⟩ := ih t
      rw [fill_of_lt late]
      refine ⟨congrArg (t :: ·) joined, List.forall_mem_nil _,
        List.forall_mem_cons.mpr ⟨⟨late, inside⟩, fun w hw => ⟨?_, (after w hw).2⟩⟩,
        List.pairwise_cons.mpr ⟨fun w hw => (after w hw).1, apart⟩⟩
      have next := (after w hw).1
      omega

/-- Whatever the times of the failures: they are those of the windows, one after another; each
failure but the first of a window comes at most the length of a window after the first; and each
window opens more than that after all before it. -/
theorem windows_spec (length : Nat) (times : List Nat) :
    (windows length times).flatMap Window.failures = times ∧
      (∀ w ∈ windows length times, ∀ t ∈ w.others, t ≤ w.opening + length) ∧
      (windows length times).Pairwise fun v w => v.opening + length < w.opening := by
  cases times with
  | nil => exact ⟨rfl, List.forall_mem_nil _, .nil⟩
  | cons t later =>
    obtain ⟨joined, inside, after, apart⟩ := fill_spec length t later
    exact ⟨congrArg (t :: ·) joined,
      List.forall_mem_cons.mpr ⟨inside, fun w hw => (after w hw).2⟩,
      List.pairwise_cons.mpr ⟨fun w hw => (after w hw).1, apart⟩⟩

/-! ## Any failures -/

/-- What the windows are answered by that the clock can show the ends of, up to the first other
one. -/
def answersTo (secs : Nat) (table : List Nat) (ws : List Window) : List (Nat × Nat) :=
  (ws.takeWhile (Window.isShown secs)).flatMap (Window.answers table)

/-- A failure in no window is answered as the first one of a window that it opens, if what follows
is answered as in an open window. -/
theorem answers_of_shut {later : List Nat} (shut : b.isOpenAt t = false)
    (onward : (b.reopen t).answers later =
      (List.range' 1 (fill (b.windowSecs * 1000) t later).1.length).map (answerAt b.delays)
        ++ answersTo b.windowSecs b.delays (fill (b.windowSecs * 1000) t later).2) :
    b.answers (t :: later)
      = answersTo b.windowSecs b.delays (windows (b.windowSecs * 1000) (t :: later)) := by
  have whole : windows (b.windowSecs * 1000) (t :: later)
      = ⟨t, (fill (b.windowSecs * 1000) t later).1⟩ :: (fill (b.windowSecs * 1000) t later).2 := rfl
  rw [answers, next?_of_shut shut, whole, answersTo, List.takeWhile_cons, Window.isShown]
  by_cases shown : t / 1000 + b.windowSecs < clockLimit
  · rw [if_pos shown, decide_eq_true shown, if_pos rfl, List.flatMap_cons, Window.answers_eq_cons,
      List.cons_append]
    exact congrArg (answerAt b.delays 0 :: ·) onward
  · rw [if_neg shown, decide_eq_false shown, if_neg Bool.false_ne_true]
    rfl

/-- In a window that has seen some failures, the next ones are answered by their places in it, and
then the later windows follow. -/
theorem answers_of_open {opening : Nat}
    (present : b.windowEnd = some (opening + b.windowSecs * 1000)) (times : List Nat) :
    b.answers times =
      (List.range' b.count (fill (b.windowSecs * 1000) opening times).1.length).map
          (answerAt b.delays)
        ++ answersTo b.windowSecs b.delays (fill (b.windowSecs * 1000) opening times).2 := by
  -- The state changes with every failure, but never its table or the length of its windows.
  induction times generalizing b opening with
  | nil => rfl
  | cons t later ih =>
    by_cases within : t ≤ opening + b.windowSecs * 1000
    · rw [answers, next?_of_open present within, fill_of_le within]
      show _ :: answers _ later = _
      rw [ih (b := { b with count := b.count + 1 }) present, List.length_cons, List.range'_succ]
      rfl
    · have shut : b.isOpenAt t = false := by
        rw [isOpenAt, present]
        exact decide_eq_false within
      rw [fill_of_lt (Nat.not_le.mp within)]
      exact answers_of_shut shut (ih (b := b.reopen t) rfl)

/-- In a table of several delays, all different, no place but the first one has the first delay. -/
theorem answerAt_ne_head {table : List Nat} (several : 1 < table.length) (distinct : table.Nodup)
    {k : Nat} (later : 0 < k) : some (answerAt table k).1 ≠ table.head? := by
  have bound : min k (table.length - 1) < table.length := by omega
  have entry : some (answerAt table k).1 = table[min k (table.length - 1)]? := by
    rw [answerAt, List.getElem?_eq_getElem bound, Option.getD_some]
  rw [entry, List.head?_eq_getElem?]
  intro same
  have place := (List.getElem?_inj bound distinct).mp same
  omega

/-- **Delays follow the table window by window.** Failures may come at any times. The first one
opens a window, and a later one opens the next window exactly if it comes more than the length of a
window after the one that opened the present window. Then the failure at place `k` of its window,
counted from zero, waits for entry `k` of the table, or for the last one if there are fewer, or not
at all if the table is empty; and it leaves a count of `k + 1`. So windows open more than the length
of one apart, and if the table has several entries, all different, only the first failure of a
window waits for the first one. This goes on up to the first window whose end is beyond what the
clock can show: neither the failure that would open it nor any later one has an answer. -/
theorem answers_by_windows (s : Settings.Reconnect) (times : List Nat) :
    let length := s.windowSecs.toNat * 1000
    let table := s.delaysMs.map UInt64.toNat
    let ws := windows length times
    ws.flatMap Window.failures = times ∧
      (∀ w ∈ ws, ∀ t ∈ w.others, t ≤ w.opening + length) ∧
      (ws.Pairwise fun v w => v.opening + length < w.opening) ∧
      (ofSettings s).answers times
        = (ws.takeWhile (Window.isShown s.windowSecs.toNat)).flatMap (Window.answers table) ∧
      (1 < table.length → table.Nodup →
        ∀ w ∈ ws, ∀ later ∈ (w.answers table).tail, some later.1 ≠ table.head?) := by
  intro length table ws
  obtain ⟨joined, inside, apart⟩ := windows_spec length times
  refine ⟨joined, inside, apart, ?_, ?_⟩
  · cases times with
    | nil => rfl
    | cons t later => exact answers_of_shut rfl (answers_of_open rfl later)
  · intro several distinct w _ answer later
    rw [Window.answers_eq_cons, List.tail_cons] at later
    obtain ⟨k, place, rfl⟩ := List.mem_map.mp later
    exact answerAt_ne_head several distinct (List.mem_range'_1.mp place).1

/-- Three windows of a minute: a failure at the end of the first one is in it, and the last entry of
the table repeats. -/
theorem answers_by_windows_sample :
    let s : Settings.Reconnect := {}
    let times := [7, 30007, 60007, 60007, 60008, 120009, 120009]
    let table := s.delaysMs.map UInt64.toNat
    let ws := windows (s.windowSecs.toNat * 1000) times
    ws = [⟨7, [30007, 60007, 60007]⟩, ⟨60008, []⟩, ⟨120009, [120009]⟩] ∧
      (ofSettings s).answers times
        = [(0, 1), (5000, 2), (30000, 3), (30000, 4), (0, 1), (0, 1), (5000, 2)] ∧
      ∀ w ∈ ws, ∀ later ∈ (w.answers table).tail, some later.1 ≠ table.head? := by
  intro s times table ws
  obtain ⟨-, -, -, answers, first⟩ := answers_by_windows s times
  exact ⟨by decide, answers.trans (by decide), first (by decide) (by decide)⟩

/-- With the longest window there is no answer to any failure, while the table has one for each. -/
theorem overlong_window_unanswered :
    let s : Settings.Reconnect := ⟨0xffffffffffffffff, [10, 20]⟩
    let times := [0, 10, 30]
    let ws := windows (s.windowSecs.toNat * 1000) times
    ws = [⟨0, [10, 30]⟩] ∧
      ws.flatMap (Window.answers (s.delaysMs.map UInt64.toNat)) = [(10, 1), (20, 2), (20, 3)] ∧
      (ofSettings s).answers times = [] :=
  ⟨by decide, by decide, by decide⟩

end MarketStream.Link.Backoff
