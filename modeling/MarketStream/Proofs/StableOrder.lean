/-!
# Stable orders

Quotes, trades and held frames are put in order by a key, and those of one key stay as they came.
Such an order is determined: two lists in order are the same if they agree on the items of each
key. A sort can therefore be done in several steps, and its front can be cut off before the rest is
complete, as long as what is still to come is not before it.

* `keyLE`, `Ranking` — comparing by a key of two numbers;
* `filter_tied_mergeSort` — sorting leaves the items of one key as they came;
* `eq_of_filter_tied` — a list in order is determined by the items of each key;
* `mergeSort_append_of_le`, `takeWhile_append_mergeSort` — a front that nothing comes before.
-/

namespace MarketStream

/-- By the first number, then by the second. -/
def keyLE (a b : Int × Int) : Bool := decide (a.1 < b.1 ∨ a.1 = b.1 ∧ a.2 ≤ b.2)

/-- A comparison that puts any items in order, up to ties. -/
structure Ranking {α : Type} (le : α → α → Bool) : Prop where
  /-- What is not after something that is not after a third is not after that. -/
  trans : ∀ a b c, le a b = true → le b c = true → le a c = true
  /-- Of any two, one is not after the other. -/
  total : ∀ a b, (le a b || le b a) = true

theorem ranking_of_key {α : Type} (key : α → Int × Int) :
    Ranking fun a b => keyLE (key a) (key b) := by
  refine ⟨?_, ?_⟩
  · intro a b c ab bc
    simp only [keyLE, decide_eq_true_eq] at ab bc ⊢
    omega
  · intro a b
    simp only [keyLE, Bool.or_eq_true, decide_eq_true_eq]
    omega

section

variable {α : Type} {le : α → α → Bool}

/-- Neither item is after the other. -/
def tied (le : α → α → Bool) (a b : α) : Bool := le a b && le b a

theorem tied_iff {a b : α} : tied le a b = true ↔ le a b = true ∧ le b a = true :=
  Bool.and_eq_true_iff

namespace Ranking

variable (h : Ranking le)

include h

theorem refl (a : α) : le a a = true := by
  simpa using h.total a a

theorem pairwise_mergeSort (l : List α) : (l.mergeSort le).Pairwise (le · ·) :=
  List.pairwise_mergeSort h.trans h.total l

/-- Tied items are in order as they are. -/
theorem pairwise_filter_tied (l : List α) (a : α) :
    (l.filter (tied le a)).Pairwise (le · ·) := by
  refine List.pairwise_of_forall_mem_list ?_
  intro x hx y hy
  obtain ⟨-, xa⟩ := tied_iff.mp (List.mem_filter.mp hx).2
  obtain ⟨ay, -⟩ := tied_iff.mp (List.mem_filter.mp hy).2
  exact h.trans x a y xa ay

/-- Sorting leaves tied items as they came. -/
theorem filter_tied_mergeSort (l : List α) (a : α) :
    (l.mergeSort le).filter (tied le a) = l.filter (tied le a) := by
  have kept : (l.filter (tied le a)).Sublist (l.mergeSort le) :=
    List.sublist_mergeSort h.trans h.total (h.pairwise_filter_tied l a) List.filter_sublist
  have sub : (l.filter (tied le a)).Sublist ((l.mergeSort le).filter (tied le a)) := by
    have := kept.filter (tied le a)
    rwa [List.filter_filter, funext fun x => Bool.and_self (tied le a x)] at this
  have same : (l.filter (tied le a)).length = ((l.mergeSort le).filter (tied le a)).length :=
    ((List.mergeSort_perm l le).filter (tied le a)).length_eq.symm
  exact (sub.eq_of_length same).symm

/-- Lists in order are the same if they agree on tied items. -/
theorem eq_of_filter_tied {s t : List α} (hs : s.Pairwise (le · ·)) (ht : t.Pairwise (le · ·))
    (same : ∀ a, s.filter (tied le a) = t.filter (tied le a)) : s = t := by
  induction s generalizing t with
  | nil =>
    cases t with
    | nil => rfl
    | cons b t =>
      have := same b
      rw [List.filter_nil, List.filter_cons_of_pos (tied_iff.mpr ⟨h.refl b, h.refl b⟩)] at this
      cases this
  | cons a s ih =>
    have self : ∀ x, tied le x x = true := fun x => tied_iff.mpr ⟨h.refl x, h.refl x⟩
    have first := same a
    rw [List.filter_cons_of_pos (self a)] at first
    cases t with
    | nil => cases first
    | cons b t =>
      obtain ⟨a_le, hs'⟩ := List.pairwise_cons.mp hs
      obtain ⟨b_le, ht'⟩ := List.pairwise_cons.mp ht
      -- The first items are tied: each of them occurs in the other list.
      have mem_t : a ∈ b :: t := (List.mem_filter.mp (first ▸ List.mem_cons_self)).1
      have mem_s : b ∈ a :: s := by
        have second := same b
        rw [List.filter_cons_of_pos (self b)] at second
        exact (List.mem_filter.mp (second ▸ List.mem_cons_self)).1
      have ba : le b a = true := by
        rcases List.mem_cons.mp mem_t with rfl | mem
        · exact h.refl a
        · exact b_le a mem
      have ab : le a b = true := by
        rcases List.mem_cons.mp mem_s with rfl | mem
        · exact h.refl b
        · exact a_le b mem
      rw [List.filter_cons_of_pos (tied_iff.mpr ⟨ab, ba⟩)] at first
      obtain ⟨rfl, -⟩ := List.cons.inj first
      refine congrArg (a :: ·) (ih hs' ht' ?_)
      intro x
      have both := same x
      rw [List.filter_cons, List.filter_cons] at both
      split at both
      · exact (List.cons.inj both).2
      · exact both

/-- A list in order that leaves tied items as they came is the sorted list. -/
theorem eq_mergeSort {s l : List α} (hs : s.Pairwise (le · ·))
    (same : ∀ a, s.filter (tied le a) = l.filter (tied le a)) : s = l.mergeSort le := by
  refine h.eq_of_filter_tied hs (h.pairwise_mergeSort l) ?_
  intro a
  rw [same, h.filter_tied_mergeSort]

/-- Sorting what was partly sorted before. -/
theorem mergeSort_mergeSort_append (l m : List α) :
    (l.mergeSort le ++ m).mergeSort le = (l ++ m).mergeSort le := by
  refine h.eq_mergeSort (h.pairwise_mergeSort _) ?_
  intro a
  rw [h.filter_tied_mergeSort, List.filter_append, List.filter_append, h.filter_tied_mergeSort]

/-- A front in order that nothing else comes before stays where it is. -/
theorem mergeSort_append_of_le {s l : List α} (hs : s.Pairwise (le · ·))
    (before : ∀ a ∈ s, ∀ b ∈ l, le a b = true) :
    (s ++ l).mergeSort le = s ++ l.mergeSort le := by
  symm
  refine h.eq_mergeSort ?_ ?_
  · refine List.pairwise_append.mpr ⟨hs, h.pairwise_mergeSort l, ?_⟩
    intro a ha b hb
    exact before a ha b (List.mem_mergeSort.mp hb)
  · intro a
    rw [List.filter_append, List.filter_append, h.filter_tied_mergeSort]

/-- So the front of a list in order can be cut off before the rest is complete, if what is still to
come is not before it. -/
theorem takeWhile_append_mergeSort {s l : List α} {p : α → Bool} (hs : s.Pairwise (le · ·))
    (before : ∀ a, p a = true → ∀ b ∈ l, le a b = true) :
    s.takeWhile p ++ (s.dropWhile p ++ l).mergeSort le = (s ++ l).mergeSort le := by
  have whole : s.takeWhile p ++ s.dropWhile p = s := List.takeWhile_append_dropWhile
  have parts := hs
  rw [← whole] at parts
  obtain ⟨front, -, across⟩ := List.pairwise_append.mp parts
  rw [← h.mergeSort_append_of_le front, ← List.append_assoc, whole]
  intro a ha b hb
  rcases List.mem_append.mp hb with hb | hb
  · exact across a ha b hb
  · exact before a (List.all_eq_true.mp List.all_takeWhile a ha) b hb

end Ranking

end

end MarketStream
