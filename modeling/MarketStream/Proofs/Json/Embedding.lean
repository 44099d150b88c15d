import MarketStream.Proofs.Json.Number
import MarketStream.Proofs.Lookup

/-!
# Cutting a text out and putting it elsewhere

A text that the automaton cut out of an input as one value is a value wherever it stands. What the
automaton does with a glyph depends on the brackets that are open inside the value only, as long as
some are; the brackets around the value come into play when it has ended. So a run over a value can
be replayed inside other brackets and in front of another rest, which must not go on with a number
that ends the value.

* `step_append` — a step inside further brackets;
* `cut_append` — a value that was cut out once is cut out inside other brackets;
* `isValue_of_extent?` — it is a value;
* `isCut_of_field?` — the texts of the fields of a record are such values.
-/

namespace MarketStream.Json

/-- An empty list or record can end only inside its bracket. -/
def Inside (spot : Spot) (opened : List Bracket) : Prop :=
  spot = .firstItem ∨ spot = .firstKey → opened ≠ []

/-- What a step comes to inside further brackets: when the value has ended, what is around it goes
on. -/
def Outcome.within (outer : List Bracket) : Outcome → Outcome
  | .more spot opened => .more spot (opened ++ outer)
  | .closed => finish outer
  | .ended => .ended
  | .bad => .bad

section

variable {opened outer : List Bracket} {spot : Spot} {g : Glyph}

theorem finish_append (opened outer : List Bracket) :
    finish (opened ++ outer) = (finish opened).within outer := by
  cases opened with
  | nil => rfl
  | cons b rest => rfl

theorem begin?_append (opened outer : List Bracket) (c : Char) :
    begin? (opened ++ outer) c = (begin? opened c).within outer := by
  simp only [begin?]
  split_ifs <;> rfl

theorem follow_append {c : Char} (live : follow opened c ≠ .bad) :
    follow (opened ++ outer) c = (follow opened c).within outer := by
  cases opened with
  | nil =>
    by_cases space : isSpace c
    · simp [follow, space, Outcome.within]
    · simp [follow, space] at live
  | cons b rest =>
    cases b with
    | list =>
      simp only [follow, List.cons_append, finish_append]
      split_ifs <;> rfl
    | record =>
      simp only [follow, List.cons_append, finish_append]
      split_ifs <;> rfl

theorem stepQuoted_append (opened outer : List Bracket) (asKey : Bool) (at_ : Quoting)
    (g : Glyph) :
    stepQuoted (opened ++ outer) asKey at_ g = (stepQuoted opened asKey at_ g).within outer := by
  cases at_ with
  | plain =>
    cases g with
    | none => rfl
    | some c =>
      simp only [stepQuoted, finish_append]
      split_ifs <;> rfl
  | escaped =>
    cases g with
    | none => rfl
    | some c =>
      simp only [stepQuoted]
      split_ifs <;> rfl
  | hex left =>
    cases g with
    | none => rfl
    | some c =>
      cases left <;> simp only [stepQuoted] <;> split_ifs <;> rfl

/-- A step inside further brackets. A number at the end of the value is the exception, since it
ends only when it is seen what follows. -/
theorem step_append (outer : List Bracket) (inside : Inside spot opened)
    (live : step opened spot g ≠ .bad) (goesOn : step opened spot g ≠ .ended) :
    step (opened ++ outer) spot g = (step opened spot g).within outer := by
  cases g with
  | none =>
    cases spot with
    | quoted asKey at_ => exact stepQuoted_append ..
    | number run =>
      rw [step] at live goesOn
      split at goesOn
      · exact absurd rfl goesOn
      · next stuck => exact absurd (if_neg stuck) live
    | _ => simp [step] at live
  | some c =>
    cases spot with
    | value =>
      simp only [step, begin?_append]
      split_ifs <;> rfl
    | firstItem =>
      simp only [step, begin?_append, List.tail_append_of_ne_nil (inside (.inl rfl)), finish_append]
      split_ifs <;> rfl
    | firstKey =>
      simp only [step, List.tail_append_of_ne_nil (inside (.inr rfl)), finish_append]
      split_ifs <;> rfl
    | key =>
      simp only [step]
      split_ifs <;> rfl
    | colon =>
      simp only [step]
      split_ifs <;> rfl
    | after => exact follow_append live
    | word rest =>
      cases rest with
      | nil => simp [step] at live
      | cons w rest =>
        simp only [step, finish_append]
        split_ifs <;> rfl
    | quoted asKey at_ => exact stepQuoted_append ..
    | number run =>
      rw [step] at live goesOn ⊢
      rw [step]
      by_cases numeric : isNumeric c
      · rw [if_pos numeric, if_pos numeric]
        rfl
      rw [if_neg numeric] at live goesOn ⊢
      rw [if_neg numeric]
      by_cases spelled : spellsNumber run
      · rw [if_pos spelled] at live goesOn ⊢
        rw [if_pos spelled]
        by_cases outermost : opened = []
        · rw [if_pos outermost] at goesOn
          exact absurd rfl goesOn
        · rw [if_neg outermost] at live ⊢
          rw [if_neg (by simp [outermost]), follow_append live]
      · rw [if_neg spelled] at live
        exact absurd rfl live

/-! ## Where the automaton can stand -/

/-- An outcome with which the automaton stays inside its brackets, other than the end of a
number. -/
def Outcome.Stays : Outcome → Prop
  | .more spot opened => Inside spot opened
  | .ended => False
  | _ => True

@[simp] theorem stays_more : (Outcome.more spot opened).Stays ↔ Inside spot opened := Iff.rfl

@[simp] theorem stays_closed : Outcome.closed.Stays := trivial

@[simp] theorem stays_bad : Outcome.bad.Stays := trivial

@[simp] theorem stays_finish (opened : List Bracket) : (finish opened).Stays := by
  rw [finish]
  split_ifs <;> simp [Inside]

@[simp] theorem stays_begin? (opened : List Bracket) (c : Char) : (begin? opened c).Stays := by
  rw [begin?]
  split_ifs <;> simp [Inside]

@[simp] theorem stays_follow (opened : List Bracket) (c : Char) : (follow opened c).Stays := by
  cases opened with
  | nil => by_cases space : isSpace c <;> simp [follow, space, Inside]
  | cons b rest => cases b <;> simp only [follow] <;> split_ifs <;> simp [Inside]

@[simp] theorem stays_stepQuoted (opened : List Bracket) (asKey : Bool) (at_ : Quoting)
    (g : Glyph) : (stepQuoted opened asKey at_ g).Stays := by
  rw [stepQuoted.eq_def]
  split
  · simp [Inside]
  · split_ifs <;> simp [Inside]
  · split_ifs <;> simp [Inside]
  · split_ifs
    · split <;> simp [Inside]
    · exact stays_bad
  · exact stays_bad

/-- The automaton stays inside its brackets, or a number ends outside all of them. -/
theorem step_stays (inside : Inside spot opened) :
    (step opened spot g).Stays ∨
      step opened spot g = .ended ∧
        ∃ run, spot = .number run ∧ spellsNumber run = true ∧ opened = [] := by
  cases g with
  | none =>
    cases spot with
    | quoted asKey at_ => exact .inl (stays_stepQuoted ..)
    | number run =>
      rw [step]
      by_cases ended : spellsNumber run ∧ opened = []
      · exact .inr ⟨if_pos ended, run, rfl, ended⟩
      · exact .inl (by simp [ended])
    | _ => exact .inl (by simp [step])
  | some c =>
    cases spot with
    | value => left; rw [step]; split_ifs <;> simp [Inside]
    | firstItem => left; rw [step]; split_ifs <;> simp [inside]
    | firstKey => left; rw [step]; split_ifs <;> first | exact inside | simp [Inside]
    | key => left; rw [step]; split_ifs <;> simp [Inside]
    | colon => left; rw [step]; split_ifs <;> simp [Inside]
    | after => exact .inl (stays_follow ..)
    | word rest =>
      left
      cases rest with
      | nil => exact stays_bad
      | cons w rest => rw [step]; split_ifs <;> simp [Inside]
    | quoted asKey at_ => exact .inl (stays_stepQuoted ..)
    | number run =>
      rw [step]
      by_cases ended : isNumeric c = false ∧ spellsNumber run = true ∧ opened = []
      · obtain ⟨mark, spelled, outermost⟩ := ended
        exact .inr ⟨by simp [mark, spelled, outermost], run, rfl, spelled, outermost⟩
      · left
        split_ifs <;> simp_all [Inside]

/-! ## Replaying a run -/

/-- What was cut out of an input is cut out inside other brackets and in front of another rest. -/
theorem cut_append {input seen v rest : Input} (inside : Inside spot opened)
    (cuts : cut seen spot opened input = some (v, rest)) :
    ∃ part, v = seen.reverse ++ part ∧ input = part ++ rest ∧
      ∀ outer seen' rest', Delimited rest' →
        cut seen' spot (opened ++ outer) (part ++ rest')
          = resume (part.reverse ++ seen') outer rest' := by
  induction input generalizing seen spot opened with
  | nil =>
    cases spot with
    | number run =>
      rw [cut] at cuts
      split at cuts
      · next ended =>
        obtain ⟨spelled, rfl⟩ := ended
        obtain ⟨rfl, rfl⟩ := Prod.mk.inj (Option.some.inj cuts)
        exact ⟨[], by simp, rfl, fun outer seen' rest' => ends_number outer spelled seen' rest'⟩
      · cases cuts
    | _ => cases cuts
  | cons g input ih =>
    rw [cut] at cuts
    rcases step_stays (g := g) inside with stays | ⟨ended, run, rfl, spelled, rfl⟩
    · cases outcome : step opened spot g with
      | more spot' opened' =>
        rw [outcome] at cuts stays
        obtain ⟨part, rfl, rfl, replay⟩ := ih stays cuts
        refine ⟨g :: part, by simp, rfl, fun outer seen' rest' delimited => ?_⟩
        have lifted := step_append outer inside (g := g) (by simp [outcome]) (by simp [outcome])
        rw [List.cons_append, cut, lifted, outcome]
        show cut (g :: seen') spot' (opened' ++ outer) (part ++ rest') = _
        rw [replay outer (g :: seen') rest' delimited, List.reverse_cons, List.append_assoc]
        rfl
      | closed =>
        rw [outcome] at cuts
        obtain ⟨rfl, rfl⟩ := Prod.mk.inj (Option.some.inj cuts)
        refine ⟨[g], by simp, rfl, fun outer seen' rest' _ => ?_⟩
        have lifted := step_append outer inside (g := g) (by simp [outcome]) (by simp [outcome])
        rw [List.singleton_append, cut, lifted, outcome]
        cases outer with
        | nil => rfl
        | cons b outer => exact (resume_cons ..).symm
      | ended =>
        rw [outcome] at stays
        exact stays.elim
      | bad =>
        rw [outcome] at cuts
        cases cuts
    · rw [ended] at cuts
      obtain ⟨rfl, rfl⟩ := Prod.mk.inj (Option.some.inj cuts)
      exact ⟨[], by simp, rfl, fun outer seen' rest' => ends_number outer spelled seen' rest'⟩

end

/-- A text that was cut out of an input is a value. -/
theorem isValue_of_extent? {input rest : Input} {text : List Char}
    (h : extent? input = some (text.map some, rest)) : IsValue text := by
  obtain ⟨part, whole, split, replay⟩ := cut_append (by simp [Inside]) h
  obtain rfl : text.map some = part := whole
  have ends : ∀ opened, Ends .value opened text opened :=
    fun opened seen more delimited => replay opened seen more delimited
  refine ⟨?_, ends⟩
  cases text with
  | nil => cases ends [] [] [] delimited_nil
  | cons c tail =>
    refine ⟨c, tail, rfl, ?_, ?_⟩
    · -- The spaces in front of the value were passed over.
      have head := List.head?_dropWhile_not isSpaceGlyph input
      rw [show input.dropWhile isSpaceGlyph = _ from split] at head
      simpa [isSpaceGlyph] using head
    · rintro rfl
      cases ends [] [] [] delimited_nil

/-! ## Parts of a text -/

/-- A text was cut out of some input. -/
def IsCut (v : Input) : Prop := ∃ input rest, extent? input = some (v, rest)

/-- What was cut out and is a text is a value. -/
theorem IsCut.isValue {text : List Char} (h : IsCut (text.map some)) : IsValue text := by
  obtain ⟨input, rest, extent⟩ := h
  exact isValue_of_extent? extent

theorem isCut_of_mem_itemsFrom {seen items : List Input} {fuel : Nat} {input : Input}
    (h : itemsFrom seen fuel input = some items) (cuts : ∀ v ∈ seen, IsCut v) :
    ∀ v ∈ items, IsCut v := by
  induction fuel generalizing seen input with
  | zero => cases h
  | succ fuel ih =>
    rw [itemsFrom] at h
    split at h
    · cases h
    · next item rest extent =>
      have cuts' : ∀ v ∈ item :: seen, IsCut v :=
        List.forall_mem_cons.mpr ⟨⟨input, rest, extent⟩, cuts⟩
      split at h
      · exact ih h cuts'
      · obtain rfl := Option.some.inj h
        exact fun v hv => cuts' v (List.mem_reverse.mp hv)
      · cases h

/-- The items of a list are cut out of it. -/
theorem isCut_of_mem_items? {input : Input} {items : List Input} (h : items? input = some items) :
    ∀ v ∈ items, IsCut v := by
  rw [items?.eq_def] at h
  split at h
  · split at h
    · obtain rfl := Option.some.inj h
      simp
    · exact isCut_of_mem_itemsFrom h (by simp)
  · cases h

theorem isCut_of_mem_membersFrom {seen members : List (String × Input)} {fuel : Nat}
    {input : Input} (h : membersFrom seen fuel input = some members)
    (cuts : ∀ e ∈ seen, IsCut e.2) : ∀ e ∈ members, IsCut e.2 := by
  induction fuel generalizing seen input with
  | zero => cases h
  | succ fuel ih =>
    rw [membersFrom] at h
    split at h
    · cases h
    split at h
    · next key rest _ _ =>
      split at h
      · cases h
      · next value rest' extent =>
        have cuts' : ∀ e ∈ (key, value) :: seen, IsCut e.2 :=
          List.forall_mem_cons.mpr ⟨⟨rest, rest', extent⟩, cuts⟩
        split at h
        · exact ih h cuts'
        · obtain rfl := Option.some.inj h
          exact fun e he => cuts' e (List.mem_reverse.mp he)
        · cases h
    · cases h

/-- The values of a record are cut out of it. -/
theorem isCut_of_mem_members? {input : Input} {members : List (String × Input)}
    (h : members? input = some members) : ∀ e ∈ members, IsCut e.2 := by
  rw [members?.eq_def] at h
  split at h
  · split at h
    · obtain rfl := Option.some.inj h
      simp
    · exact isCut_of_mem_membersFrom h (by simp)
  · cases h

/-- The texts of declared fields are cut out of the record, whether it names or lists them. -/
theorem isCut_of_field? {names : List String} {input : Input} {fields : Fields}
    (h : fields? names input = some fields) {name : String} {v : Input}
    (given : fields.field? name = some v) : IsCut v := by
  have mem : (name, some v) ∈ fields.given :=
    mem_of_lookup (Option.join_eq_some_iff.mp given)
  rw [fields?] at h
  split at h
  · next parts members =>
    rw [namedFields?] at h
    split at h
    · obtain rfl := Option.some.inj h
      obtain ⟨n, -, eq⟩ := List.mem_map.mp mem
      exact isCut_of_mem_members? members _ (mem_of_lookup (Prod.mk.inj eq).2)
    · cases h
  · obtain ⟨texts, items, listed⟩ := Option.bind_eq_some_iff.mp h
    rw [listedFields?] at listed
    split at listed
    · obtain rfl := Option.some.inj listed
      have there := (List.of_mem_zip mem).2
      exact isCut_of_mem_items? items v (by simpa using there)
    · cases listed

end MarketStream.Json
