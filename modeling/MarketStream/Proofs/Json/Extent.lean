import MarketStream.Json.Writer
import MarketStream.Proofs.Json.Quoted

/-!
# Where written values end

The automaton that delimits values passes over a written value wherever one may stand, and stops
right behind it. A number ends where no character of a number follows, so what comes after a value
must not be one.

* `Walks`, `Ends` — how a stretch of text moves the automaton;
* `IsValue` — a text that is passed over as one value;
* `isValue_list`, `isValue_record` — brackets around values;
* `document?_utf8` — the extent of a text that is a value.
-/

namespace MarketStream.Json

/-- What comes after a value, if anything, is a character that cannot stand in a number. -/
def Delimited (rest : Input) : Prop := ∀ g ∈ rest.head?, ∃ c, g = some c ∧ isNumeric c = false

theorem delimited_nil : Delimited [] := fun _ h => by cases h

theorem delimited_cons {c : Char} (h : isNumeric c = false) (rest : Input) :
    Delimited (some c :: rest) := by
  intro g hg
  obtain rfl : some c = g := by simpa using hg
  exact ⟨c, rfl, h⟩

/-- What the automaton does once a value has ended inside the given brackets. -/
def resume (seen : Input) (opened : List Bracket) (rest : Input) : Option (Input × Input) :=
  if opened = [] then some (seen.reverse, rest) else cut seen .after opened rest

theorem resume_nil (seen rest : Input) : resume seen [] rest = some (seen.reverse, rest) :=
  if_pos rfl

theorem resume_cons (seen : Input) (b : Bracket) (outer : List Bracket) (rest : Input) :
    resume seen (b :: outer) rest = cut seen .after (b :: outer) rest := if_neg (by simp)

/-! ## Stretches of text -/

/-- A text leads the automaton from one spot to another. -/
def Walks (spot : Spot) (opened : List Bracket) (text : List Char) (spot' : Spot)
    (opened' : List Bracket) : Prop :=
  ∀ seen rest, cut seen spot opened (text.map some ++ rest)
    = cut ((text.map some).reverse ++ seen) spot' opened' rest

/-- A text leads the automaton to the end of a value inside the given brackets. -/
def Ends (spot : Spot) (opened : List Bracket) (text : List Char) (opened' : List Bracket) : Prop :=
  ∀ seen rest, Delimited rest →
    cut seen spot opened (text.map some ++ rest)
      = resume ((text.map some).reverse ++ seen) opened' rest

section

variable {p q r : Spot} {j k l : List Bracket} {c : Char} {a b : List Char}

theorem Walks.nil : Walks p j [] p j := fun _ _ => rfl

theorem Walks.trans (h : Walks p j a q k) (h' : Walks q k b r l) : Walks p j (a ++ b) r l := by
  intro seen rest
  rw [List.map_append, List.append_assoc, h, h', List.reverse_append, List.append_assoc]

theorem Walks.ends (h : Walks p j a q k) (h' : Ends q k b l) : Ends p j (a ++ b) l := by
  intro seen rest delimited
  rw [List.map_append, List.append_assoc, h, h' _ _ delimited, List.reverse_append,
    List.append_assoc]

theorem Walks.of_step (h : step j p (some c) = .more q k) : Walks p j [c] q k := by
  intro seen rest
  show cut seen p j (some c :: rest) = _
  rw [cut, h]
  rfl

theorem Walks.cons (h : step j p (some c) = .more q k) (h' : Walks q k b r l) :
    Walks p j (c :: b) r l :=
  (Walks.of_step h).trans h'

theorem Ends.cons (h : step j p (some c) = .more q k) (h' : Ends q k b l) :
    Ends p j (c :: b) l :=
  (Walks.of_step h).ends h'

/-- The last character of a value. -/
theorem Ends.of_step (h : step j p (some c) = finish k) : Ends p j [c] k := by
  intro seen rest _
  show cut seen p j (some c :: rest) = _
  rw [cut, h]
  cases k with
  | nil => rfl
  | cons b outer => exact (resume_cons ..).symm

end

/-! ## Values -/

/-- A text that the automaton passes over as one value, wherever one may stand. -/
structure IsValue (text : List Char) : Prop where
  /-- It begins with neither a space nor the end of a list. -/
  head_ne : ∃ c rest, text = c :: rest ∧ isSpace c = false ∧ c ≠ ']'
  /-- It ends the value that it begins. -/
  ends : ∀ opened, Ends .value opened text opened

section

variable {opened outer : List Bracket} {b : Bracket} {c : Char} {text : List Char}

/-- A value in a list may be the first item. -/
theorem IsValue.ends_firstItem (h : IsValue text) {rest : List Char}
    (ends : Ends .value opened (text ++ rest) outer) :
    Ends .firstItem opened (text ++ rest) outer := by
  obtain ⟨c, tail, rfl, notSpace, notEnd⟩ := h.head_ne
  intro seen more delimited
  rw [← ends seen more delimited]
  show cut seen .firstItem opened (some c :: _) = cut seen .value opened (some c :: _)
  simp only [cut, step, notSpace, notEnd]
  rfl

/-- A value inside brackets is followed by a mark. -/
theorem IsValue.cut_after (h : IsValue text) (mark : isNumeric c = false) (seen rest : Input) :
    cut seen .value (b :: outer) ((text ++ [c]).map some ++ rest)
      = cut ((text.map some).reverse ++ seen) .after (b :: outer) (some c :: rest) := by
  rw [List.map_append, List.append_assoc]
  show cut seen .value (b :: outer) (text.map some ++ some c :: rest) = _
  rw [h.ends _ seen _ (delimited_cons mark rest), resume_cons]

theorem IsValue.walks_mark (h : IsValue text) (mark : isNumeric c = false) {spot : Spot}
    (next : follow (b :: outer) c = .more spot opened) :
    Walks .value (b :: outer) (text ++ [c]) spot opened := by
  intro seen rest
  rw [h.cut_after mark, List.map_append, List.reverse_append]
  exact Walks.of_step (p := .after) next _ rest

theorem IsValue.ends_mark (h : IsValue text) (mark : isNumeric c = false)
    (next : follow (b :: outer) c = finish opened) :
    Ends .value (b :: outer) (text ++ [c]) opened := by
  intro seen rest delimited
  rw [h.cut_after mark, List.map_append, List.reverse_append]
  exact Ends.of_step (p := .after) next _ rest delimited

end

/-! ## Words -/

theorem walks_word {w : Char} {rest : List Char} (opened : List Bracket) :
    Ends (.word (w :: rest)) opened (w :: rest) opened := by
  induction rest generalizing w with
  | nil => exact Ends.of_step (by simp [step])
  | cons v rest ih => exact Ends.cons (by simp [step]) ih

theorem isValue_null : IsValue writeNull :=
  ⟨⟨'n', _, rfl, by decide, by decide⟩, fun opened =>
    Ends.cons (q := .word ['u', 'l', 'l']) rfl (walks_word opened)⟩

theorem isValue_bool (b : Bool) : IsValue (writeBool b) := by
  cases b with
  | true =>
    exact ⟨⟨'t', _, rfl, by decide, by decide⟩, fun opened =>
      Ends.cons (q := .word ['r', 'u', 'e']) rfl (walks_word opened)⟩
  | false =>
    exact ⟨⟨'f', _, rfl, by decide, by decide⟩, fun opened =>
      Ends.cons (q := .word ['a', 'l', 's', 'e']) rfl (walks_word opened)⟩

/-! ## Strings -/

section

variable {asKey : Bool} {opened : List Bracket}

/-- A digit of a hexadecimal escape. -/
def IsHex (c : Char) : Prop := c.isDigit ∨ ('a' ≤ c ∧ c ≤ 'f') ∨ ('A' ≤ c ∧ c ≤ 'F')

instance (c : Char) : Decidable (IsHex c) := inferInstanceAs (Decidable (_ ∨ _))

theorem isHex_hexDigit {n : Nat} (h : n < 16) : IsHex (hexDigit n) := by
  revert n
  decide

theorem walks_hex {left : Nat} {c : Char} (h : IsHex c) :
    Walks (.quoted asKey (.hex (left + 1))) opened [c] (.quoted asKey (.hex left)) opened :=
  Walks.of_step (if_pos h)

theorem walks_lastHex {c : Char} (h : IsHex c) :
    Walks (.quoted asKey (.hex 0)) opened [c] (.quoted asKey .plain) opened :=
  Walks.of_step (if_pos h)

/-- A written character keeps the automaton inside the string. -/
theorem Escaped.walks {c : Char} {text : List Char} (h : Escaped c text) :
    Walks (.quoted asKey .plain) opened text (.quoted asKey .plain) opened := by
  cases h with
  | short e known eq =>
    refine Walks.cons (q := .quoted asKey .escaped) rfl (Walks.of_step ?_)
    have notHex : e ≠ 'u' := by
      rintro rfl
      cases eq
    rw [step, stepQuoted, if_neg notHex, if_pos known]
  | hex control =>
    have first : IsHex (hexDigit (c.toNat / 16)) := isHex_hexDigit (by omega)
    have second : IsHex (hexDigit (c.toNat % 16)) := isHex_hexDigit (by omega)
    have toDigits : Walks (.quoted asKey .plain) opened ['\\', 'u', '0', '0']
        (.quoted asKey (.hex 1)) opened :=
      Walks.cons (q := .quoted asKey .escaped) rfl
        (Walks.cons (q := .quoted asKey (.hex 3)) rfl
          ((walks_hex (by decide)).trans (walks_hex (by decide))))
    exact toDigits.trans ((walks_hex first).trans (walks_lastHex second))
  | plain notQuote notSlash notControl =>
    refine Walks.of_step ?_
    have printable : ¬ c < ' ' := by simpa [isControl] using notControl
    rw [step, stepQuoted, if_neg notQuote, if_neg notSlash, if_neg printable]

theorem walks_inside (cs : List Char) :
    Walks (.quoted asKey .plain) opened (cs.flatMap escape) (.quoted asKey .plain) opened := by
  induction cs with
  | nil => exact Walks.nil
  | cons c rest ih =>
    rw [List.flatMap_cons]
    exact (escaped_escape c).walks.trans ih

end

/-- A written key is passed over up to its colon. -/
theorem walks_key (s : String) (opened : List Bracket) :
    Walks .key opened (quote s) .colon opened :=
  Walks.cons (q := .quoted true .plain) rfl ((walks_inside s.toList).trans (Walks.of_step rfl))

/-- A written text is a value. -/
theorem isValue_quote (s : String) : IsValue (quote s) :=
  ⟨⟨'"', _, rfl, by decide, by decide⟩, fun opened =>
    Ends.cons (q := .quoted false .plain) rfl
      ((walks_inside s.toList).ends (Ends.of_step rfl))⟩

/-! ## Lists and records -/

theorem commas_cons_cons (part next : List Char) (rest : List (List Char)) :
    commas (part :: next :: rest) = (part ++ [',']) ++ commas (next :: rest) := by
  rw [commas]
  · simp
  · simp

/-- Written items up to the end of their list. -/
theorem ends_items {parts : List (List Char)} (values : ∀ p ∈ parts, IsValue p)
    (nonempty : parts ≠ []) (opened : List Bracket) :
    Ends .value (.list :: opened) (commas parts ++ [']']) opened := by
  induction parts with
  | nil => exact absurd rfl nonempty
  | cons part rest ih =>
    have value := values part (by simp)
    -- The last item is followed by the bracket, any other by a comma.
    cases rest with
    | nil => exact value.ends_mark (by decide) rfl
    | cons next rest =>
      rw [commas_cons_cons, List.append_assoc]
      exact (value.walks_mark (by decide) rfl).ends
        (ih (fun p hp => values p (List.mem_cons_of_mem _ hp)) (by simp))

/-- A list of values is a value. -/
theorem isValue_list {parts : List (List Char)} (values : ∀ p ∈ parts, IsValue p) :
    IsValue (list parts) := by
  refine ⟨⟨'[', _, rfl, by decide, by decide⟩, fun opened =>
    Ends.cons (q := .firstItem) (k := .list :: opened) rfl ?_⟩
  cases parts with
  | nil => exact Ends.of_step rfl
  | cons part rest =>
    have ends := ends_items values (by simp) opened
    have value := values part (by simp)
    cases rest with
    | nil => exact value.ends_firstItem ends
    | cons next rest =>
      rw [commas_cons_cons, List.append_assoc, List.append_assoc] at ends ⊢
      exact value.ends_firstItem ends

/-- A written member up to the mark behind it. -/
theorem member_append (e : String × List Char) (more : List Char) :
    member e ++ more = (quote e.1 ++ [':']) ++ (e.2 ++ more) := by
  simp [member]

/-- Written members up to the end of their record. -/
theorem ends_members {entries : List (String × List Char)} (values : ∀ e ∈ entries, IsValue e.2)
    (nonempty : entries ≠ []) (opened : List Bracket) :
    Ends .key (.record :: opened) (commas (entries.map member) ++ ['\x7d']) opened := by
  induction entries with
  | nil => exact absurd rfl nonempty
  | cons e rest ih =>
    have value := values e (by simp)
    have toValue : Walks .key (.record :: opened) (quote e.1 ++ [':']) .value (.record :: opened) :=
      (walks_key e.1 _).trans (Walks.of_step rfl)
    cases rest with
    | nil =>
      show Ends .key _ (member e ++ _) opened
      rw [member_append]
      exact toValue.ends (value.ends_mark (by decide) rfl)
    | cons next rest =>
      rw [List.map_cons, List.map_cons, commas_cons_cons, List.append_assoc, List.append_assoc,
        member_append, ← List.append_assoc e.2]
      exact toValue.ends ((value.walks_mark (by decide) rfl).ends
        (ih (fun p hp => values p (List.mem_cons_of_mem _ hp)) (by simp)))

/-- A record of values is a value. -/
theorem isValue_record {entries : List (String × List Char)} (values : ∀ e ∈ entries, IsValue e.2) :
    IsValue (record entries) := by
  refine ⟨⟨'\x7b', _, rfl, by decide, by decide⟩, fun opened =>
    Ends.cons (q := .firstKey) (k := .record :: opened) rfl ?_⟩
  cases entries with
  | nil => exact Ends.of_step rfl
  | cons e rest =>
    intro seen more delimited
    rw [← ends_members values (by simp) opened seen more delimited]
    -- A first key is read like any other, once its quotation mark is in sight.
    obtain ⟨tail, eq⟩ : ∃ tail, commas ((e :: rest).map member) ++ ['\x7d'] = '"' :: tail := by
      cases rest with
      | nil => exact ⟨_, rfl⟩
      | cons next rest => exact ⟨_, rfl⟩
    rw [eq]
    rfl

/-! ## Extents -/

theorem IsValue.dropSpace_eq {text : List Char} (h : IsValue text) (rest : Input) :
    dropSpace (text.map some ++ rest) = text.map some ++ rest := by
  obtain ⟨c, tail, rfl, notSpace, -⟩ := h.head_ne
  show List.dropWhile isSpaceGlyph (some c :: _) = some c :: _
  rw [List.dropWhile_cons_of_neg]
  simp [isSpaceGlyph, notSpace]

/-- A value is cut off in front of what cannot belong to it. -/
theorem IsValue.extent?_eq {text : List Char} (h : IsValue text) {rest : Input}
    (delimited : Delimited rest) :
    extent? (text.map some ++ rest) = some (text.map some, rest) := by
  rw [extent?, h.dropSpace_eq, h.ends [] [] rest delimited, resume_nil]
  simp

/-- A text that is one value is its own extent. -/
theorem document?_utf8 {text : List Char} (h : IsValue text) :
    document? (utf8 text) = some (text.map some) := by
  have extent := h.extent?_eq delimited_nil
  rw [List.append_nil] at extent
  rw [document?, glyphs_utf8, alone?, extent]
  rfl

end MarketStream.Json
