import Mathlib.Data.List.Induction
import MarketStream.Quote.History
import MarketStream.Proofs.StableOrder

/-!
# A history is the newest part of what was added

Quotes may be added in any order, and the oldest are forgotten while older ones still come in.
Forgetting early does not matter: a quote beyond the capacity stays beyond it, since whatever is
added later either comes after it or is beyond the capacity itself. So a history is at any time the
newest part of all quotes that were added, put in order at once.

* `run_quotes` — forgetting at every step is forgetting once at the end;
* `reverse_placeAll` — placing quotes one after another is a stable sort;
* `linked` — quotes with their predecessors, from the oldest to the newest;
* `entries_run` — what a history shows after any run.
-/

namespace MarketStream.Quote

/-- By tick time, then by the volume traded so far. -/
def notAfter (q r : Quote) : Bool := keyLE q.sortKey r.sortKey

theorem ranking_notAfter : Ranking notAfter := ranking_of_key sortKey

theorem isBefore_eq (q r : Quote) : q.isBefore r = !r.notAfter q := by
  rw [isBefore, notAfter, keyLE, ← decide_not]
  congr 1
  rw [eq_iff_iff]
  omega

namespace History

/-! ## Runs -/

/-- What can be done to a history. -/
inductive Move where
  /-- A quote is added. -/
  | append (q : Quote)
  /-- Quotes are added one after another. -/
  | extend (qs : List Quote)

/-- The quotes that a move adds. -/
def Move.added : Move → List Quote
  | .append q => [q]
  | .extend qs => qs

/-- Makes a move. -/
def act (h : History) : Move → History
  | .append q => h.append q
  | .extend qs => h.extend qs

/-- Makes moves one after another. -/
def run (h : History) (moves : List Move) : History := moves.foldl act h

/-- A run adds the quotes of its moves one after another. -/
theorem run_eq_extend (h : History) (moves : List Move) :
    h.run moves = h.extend (moves.flatMap Move.added) := by
  induction moves generalizing h with
  | nil => rfl
  | cons m rest ih =>
    rw [List.flatMap_cons, extend, List.foldl_append]
    cases m with
    | append q => exact ih (h.append q)
    | extend qs => exact ih (h.extend qs)

/-! ## Forgetting -/

/-- Quotes placed one after another, the newest first, none of them being forgotten. -/
def placeAll (qs : List Quote) : List Quote := qs.foldl (fun placed q => place q placed) []

theorem placeAll_snoc (qs : List Quote) (q : Quote) :
    placeAll (qs ++ [q]) = place q (placeAll qs) := by
  rw [placeAll, List.foldl_append]
  rfl

/-- Placing a quote does not bring back what is beyond the capacity. -/
theorem take_place_take (q : Quote) (n : Nat) (qs : List Quote) :
    (place q (qs.take n)).take n = (place q qs).take n := by
  induction qs generalizing n with
  | nil => rw [List.take_nil]
  | cons newest older ih =>
    cases n with
    | zero => rfl
    | succ n =>
      rw [List.take_succ_cons, place, place]
      split
      · rw [List.take_succ_cons, List.take_succ_cons, ih]
      · rw [List.take_succ_cons, List.take_succ_cons]
        cases n with
        | zero => rfl
        | succ n =>
          rw [List.take_succ_cons, List.take_succ_cons, List.take_take,
            Nat.min_eq_left (Nat.le_succ n)]

/-- Forgetting at every step is forgetting once at the end. -/
theorem extend_empty (capacity : Nat) (qs : List Quote) :
    (empty capacity).extend qs = ⟨(placeAll qs).take (max capacity 1), max capacity 1⟩ := by
  induction qs using List.reverseRecOn with
  | nil =>
    rw [placeAll, List.foldl_nil, List.take_nil]
    rfl
  | append_singleton before q ih =>
    rw [extend] at ih ⊢
    rw [List.foldl_append, ih, placeAll_snoc, ← take_place_take]
    rfl

/-! ## Placing sorts -/

theorem mem_place {q r : Quote} {qs : List Quote} : r ∈ place q qs ↔ r = q ∨ r ∈ qs := by
  induction qs with
  | nil => rw [place, List.mem_singleton, or_iff_left (List.not_mem_nil)]
  | cons newest older ih =>
    rw [place]
    split
    · rw [List.mem_cons, ih, List.mem_cons, or_left_comm]
    · rw [List.mem_cons]

/-- Placing a quote keeps the order. -/
theorem pairwise_place {q : Quote} {qs : List Quote}
    (h : qs.Pairwise fun newer older => older.notAfter newer = true) :
    (place q qs).Pairwise fun newer older => older.notAfter newer = true := by
  induction qs with
  | nil => exact List.pairwise_singleton _ _
  | cons newest older ih =>
    obtain ⟨first, rest⟩ := List.pairwise_cons.mp h
    rw [place, isBefore_eq]
    split
    · next before =>
      refine List.pairwise_cons.mpr ⟨?_, ih rest⟩
      intro r hr
      rcases mem_place.mp hr with rfl | hr
      · have either := ranking_notAfter.total r newest
        rw [Bool.not_eq_true'] at before
        rwa [before, Bool.or_false] at either
      · exact first r hr
    · next notBefore =>
      have after : newest.notAfter q = true := by
        rwa [Bool.not_eq_true', Bool.not_eq_false] at notBefore
      refine List.pairwise_cons.mpr ⟨?_, h⟩
      intro r hr
      rcases List.mem_cons.mp hr with rfl | hr
      · exact after
      · exact ranking_notAfter.trans r newest q (first r hr) after

/-- A quote is placed before those of its key: it came after them. -/
theorem filter_tied_place (q r : Quote) (qs : List Quote) :
    (place q qs).filter (tied notAfter r)
      = (if tied notAfter r q then [q] else []) ++ qs.filter (tied notAfter r) := by
  induction qs with
  | nil =>
    rw [place, List.filter_cons]
    split <;> rfl
  | cons newest older ih =>
    rw [place, isBefore_eq]
    split
    · next before =>
      rw [List.filter_cons, ih, List.filter_cons]
      -- A quote that is passed is strictly after the new one, so it has another key.
      by_cases new : tied notAfter r q = true
      · have other : ¬ tied notAfter r newest = true := by
          intro same
          have passes :=
            ranking_notAfter.trans newest r q (tied_iff.mp same).2 (tied_iff.mp new).1
          rw [Bool.not_eq_true', passes] at before
          cases before
        rw [if_neg other, if_neg other]
      · rw [if_neg new]
        rfl
    · rw [List.filter_cons]
      split <;> rfl

theorem pairwise_placeAll (qs : List Quote) :
    (placeAll qs).Pairwise fun newer older => older.notAfter newer = true := by
  induction qs using List.reverseRecOn with
  | nil => exact List.Pairwise.nil
  | append_singleton before q ih =>
    rw [placeAll_snoc]
    exact pairwise_place ih

theorem filter_tied_placeAll (qs : List Quote) (r : Quote) :
    (placeAll qs).filter (tied notAfter r) = (qs.filter (tied notAfter r)).reverse := by
  induction qs using List.reverseRecOn with
  | nil => rfl
  | append_singleton before q ih =>
    rw [placeAll_snoc, filter_tied_place, ih, List.filter_append, List.reverse_append,
      List.filter_cons]
    split <;> rfl

/-- Placing quotes one after another is a stable sort. -/
theorem reverse_placeAll (qs : List Quote) : (placeAll qs).reverse = qs.mergeSort notAfter := by
  refine ranking_notAfter.eq_mergeSort (List.pairwise_reverse.mpr (pairwise_placeAll qs)) ?_
  intro r
  rw [List.filter_reverse, filter_tied_placeAll, List.reverse_reverse]

/-! ## Entries -/

/-- Quotes from the oldest to the newest, each with the one just before it. -/
def linked : Option Quote → List Quote → List Entry
  | _, [] => []
  | prev, q :: newer => ⟨q, prev⟩ :: linked (some q) newer

theorem linked_snoc (prev : Option Quote) (qs : List Quote) (q : Quote) :
    linked prev (qs ++ [q]) = linked prev qs ++ [⟨q, qs.getLast?.or prev⟩] := by
  induction qs generalizing prev with
  | nil => rfl
  | cons first rest ih =>
    rw [List.cons_append, linked, linked, ih, List.getLast?_cons]
    cases rest.getLast? <;> rfl

theorem reverse_paired (qs : List Quote) : (paired qs).reverse = linked none qs.reverse := by
  induction qs with
  | nil => rfl
  | cons newest older ih =>
    rw [paired, List.reverse_cons, ih, List.reverse_cons, linked_snoc, List.getLast?_reverse,
      Option.or_none]

/-- **A history is the newest part of all that was added.** Whatever the capacity, zero counting as
one, and whatever quotes were added, in any order, one by one or many at once: from the oldest to
the newest, the entries are the last ones of the stable sort of all these quotes by tick time and
then by the volume traded so far, as many as the capacity admits; and each is seen together with
the one just before it, the first one with none. -/
theorem entries_run (capacity : Nat) (moves : List Move) :
    let added := moves.flatMap Move.added
    ((empty capacity).run moves).entries
      = linked none ((added.mergeSort notAfter).drop
          (added.length - min (max capacity 1) added.length)) := by
  intro added
  have length : (placeAll added).length = added.length := by
    rw [← List.length_reverse, reverse_placeAll, List.length_mergeSort]
  rw [entries, backward, reverse_paired, run_eq_extend, extend_empty, ← reverse_placeAll]
  congr 1
  rw [List.drop_reverse, length]
  show ((placeAll added).take _).reverse = _
  congr 1
  rw [Nat.sub_sub_self (Nat.min_le_right ..)]
  rcases Nat.le_total (max capacity 1) added.length with fits | exceeds
  · rw [Nat.min_eq_left fits]
  · rw [Nat.min_eq_right exceeds, List.take_of_length_le (length ▸ exceeds),
      List.take_of_length_le (Nat.le_of_eq length)]

end History

end MarketStream.Quote
