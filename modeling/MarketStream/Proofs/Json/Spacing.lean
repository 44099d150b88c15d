import Mathlib.Tactic.SplitIfs
import MarketStream.Json.Extent
import MarketStream.Proofs.Text.Glyphs

/-!
# A space behind a text

A space after the last character of a text changes nothing about the value in it: inside a string or
a word it does not complete one, after a number it ends what the end of the text ends, and after a
value it is passed over.

* `Spot.Spaceless`, `spaceless_step` — no word that is read has a space in it;
* `cut_append_space` — so a space behind an input stays behind what is cut off;
* `document?_append_newline` — a text with a line break behind it.
-/

namespace MarketStream.Json

/-! ## Words -/

/-- The rest of a word has no space in it. -/
def Spot.Spaceless : Spot → Prop
  | .word rest => ∀ c ∈ rest, isSpace c = false
  | _ => True

/-- If the automaton goes on, it stands where the rest of a word has no space in it. -/
def Outcome.Spaceless : Outcome → Prop
  | .more spot _ => spot.Spaceless
  | _ => True

section

variable {opened : List Bracket} {spot : Spot} {g : Glyph} {c : Char}

@[simp] theorem spaceless_more : (Outcome.more spot opened).Spaceless ↔ spot.Spaceless := Iff.rfl

@[simp] theorem spaceless_closed : Outcome.closed.Spaceless := True.intro

@[simp] theorem spaceless_ended : Outcome.ended.Spaceless := True.intro

@[simp] theorem spaceless_bad : Outcome.bad.Spaceless := True.intro

@[simp] theorem spaceless_finish (opened : List Bracket) : (finish opened).Spaceless := by
  rw [finish]
  split_ifs <;> simp [Spot.Spaceless]

@[simp] theorem spaceless_begin? (opened : List Bracket) (c : Char) :
    (begin? opened c).Spaceless := by
  rw [begin?]
  split_ifs <;> simp [Spot.Spaceless, isSpace]

@[simp] theorem spaceless_follow (opened : List Bracket) (c : Char) :
    (follow opened c).Spaceless := by
  cases opened with
  | nil => by_cases space : isSpace c <;> simp [follow, space, Spot.Spaceless]
  | cons b rest => cases b <;> simp only [follow] <;> split_ifs <;> simp [Spot.Spaceless]

@[simp] theorem spaceless_stepQuoted (opened : List Bracket) (asKey : Bool) (at_ : Quoting)
    (g : Glyph) : (stepQuoted opened asKey at_ g).Spaceless := by
  rw [stepQuoted.eq_def]
  split
  · simp [Spot.Spaceless]
  · split_ifs <;> simp [Spot.Spaceless]
  · split_ifs <;> simp [Spot.Spaceless]
  · split_ifs
    · split <;> simp [Spot.Spaceless]
    · exact spaceless_bad
  · exact spaceless_bad

/-- No step comes to a word with a space in it. -/
theorem spaceless_step (h : spot.Spaceless) (opened : List Bracket) (g : Glyph) :
    (step opened spot g).Spaceless := by
  cases g with
  | none =>
    cases spot with
    | quoted asKey at_ => exact spaceless_stepQuoted ..
    | number run => rw [step]; split_ifs <;> simp
    | _ => simp [step]
  | some c =>
    cases spot with
    | value | firstItem | firstKey | key | colon =>
      rw [step]; split_ifs <;> simp [Spot.Spaceless]
    | after => exact spaceless_follow ..
    | word rest =>
      cases rest with
      | nil => exact spaceless_bad
      | cons w rest =>
        have others : (Spot.word rest).Spaceless := fun c hc => h c (List.mem_cons_of_mem w hc)
        rw [step]
        split_ifs <;> simp [others]
    | quoted asKey at_ => exact spaceless_stepQuoted ..
    | number run => rw [step]; split_ifs <;> simp [Spot.Spaceless]

end

/-! ## Values -/

variable {space : Char}

/-- What a space is not. -/
theorem ne_of_isSpace (blank : isSpace space = true) {c : Char} (h : isSpace c = false) :
    space ≠ c := by
  rintro rfl
  rw [blank] at h
  cases h

theorem follow_space (blank : isSpace space = true) (opened : List Bracket) :
    follow opened space = .more .after opened := if_pos blank

theorem isNumeric_space (blank : isSpace space = true) : isNumeric space = false := by
  simp only [isSpace, Bool.or_eq_true, beq_iff_eq] at blank
  rcases blank with ((rfl | rfl) | rfl) | rfl <;> decide

/-- Inside a string, a space does not end it. -/
theorem stepQuoted_space (blank : isSpace space = true) (opened : List Bracket) (asKey : Bool)
    (at_ : Quoting) :
    stepQuoted opened asKey at_ (some space) = .more (.quoted asKey .plain) opened ∨
      stepQuoted opened asKey at_ (some space) = .bad := by
  simp only [isSpace, Bool.or_eq_true, beq_iff_eq] at blank
  rcases blank with ((rfl | rfl) | rfl) | rfl <;> cases at_ <;> simp [stepQuoted]

/-- A space at the end of an input does what the end does, and stays behind. -/
theorem cut_space (blank : isSpace space = true) {spot : Spot} (h : spot.Spaceless) (seen : Input)
    (opened : List Bracket) :
    cut seen spot opened [some space]
      = (cut seen spot opened []).map fun p => (p.1, p.2 ++ [some space]) := by
  cases spot with
  | value | firstItem | firstKey | key | colon => simp [cut, step, blank]
  | after => simp [cut, step, follow_space blank]
  | word rest =>
    cases rest with
    | nil => rfl
    | cons w rest =>
      have other : space ≠ w := ne_of_isSpace blank (h w List.mem_cons_self)
      simp [cut, step, other]
  | quoted asKey at_ =>
    rcases stepQuoted_space blank opened asKey at_ with next | next <;> simp [cut, step, next]
  | number run =>
    have next : step opened (.number run) (some space) = if spellsNumber run then
        (if opened = [] then .ended else .more .after opened) else .bad := by
      simp only [step, isNumeric_space blank, follow_space blank]
      rfl
    rw [cut, cut, next]
    by_cases spells : spellsNumber run = true
    · cases opened <;> simp [cut, spells]
    · simp [spells]

/-- A space behind an input stays behind what is cut off. -/
theorem cut_append_space (blank : isSpace space = true) {spot : Spot} (h : spot.Spaceless)
    (seen : Input) (opened : List Bracket) (input : Input) :
    cut seen spot opened (input ++ [some space])
      = (cut seen spot opened input).map fun p => (p.1, p.2 ++ [some space]) := by
  induction input generalizing seen spot opened with
  | nil => exact cut_space blank h seen opened
  | cons g rest ih =>
    have spaceless := spaceless_step h opened g
    rw [List.cons_append, cut, cut]
    cases next : step opened spot g with
    | more spot' opened' =>
      rw [next] at spaceless
      exact ih spaceless _ _
    | closed | ended | bad => rfl

theorem extent?_append_space (blank : isSpace space = true) (input : Input) :
    extent? (input ++ [some space]) = (extent? input).map fun p => (p.1, p.2 ++ [some space]) := by
  rw [extent?, extent?, dropSpace, dropSpace, List.dropWhile_append]
  split
  · next nothing =>
    have passed : isSpaceGlyph (some space) = true := blank
    rw [List.isEmpty_iff.mp nothing, List.dropWhile_cons_of_pos passed]
    rfl
  · have atValue : Spot.value.Spaceless := True.intro
    exact cut_append_space blank atValue [] [] _

/-- A value that is alone in an input is alone in it with a space behind. -/
theorem alone?_append_space (blank : isSpace space = true) (input : Input) :
    alone? (input ++ [some space]) = alone? input := by
  rw [alone?, alone?, extent?_append_space blank]
  cases extent? input with
  | none => rfl
  | some p =>
    have passed : (p.2 ++ [some space]).all isSpaceGlyph = p.2.all isSpaceGlyph := by
      rw [List.all_append]
      simp [isSpaceGlyph, blank]
    simp [passed]

/-- A text and the same text with a line break behind it have the same value. -/
theorem document?_append_newline (bytes : Bytes) :
    document? (bytes ++ [10]) = document? bytes := by
  rw [document?, glyphs_append_newline, alone?_append_space rfl]
  rfl

end MarketStream.Json
