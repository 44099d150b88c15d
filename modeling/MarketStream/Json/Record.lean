import MarketStream.Json.Reader

/-!
# Records

A record has declared fields. Its text names them, in any order and among fields that are not
declared, which are passed over; or it lists them in the order of declaration, possibly leaving
out a tail. Either way each declared field is given at most once.

* `Fields` — the texts of the declared fields of one record;
* `fields?` — reads them;
* the `…?` readers — what a field may hold: `text?`, `truth?`, `int64?`, `uint64?`, `float?`,
  `optional?`, `each?`;
* `Fields.required`, `Fields.orElse` — fields that must be there, or have a default.
-/

namespace MarketStream.Json

/-- The texts of the declared fields, in the order of declaration. -/
structure Fields where
  /-- The declared names with the text of each field that is given. -/
  given : List (String × Option Input)

namespace Fields

/-- The text of a field, if it is given. -/
def field? (name : String) (r : Fields) : Option Input := (r.given.lookup name).join

end Fields

/-- How often a key occurs. -/
def occurrences (key : String) (parts : List (String × Input)) : Nat :=
  (parts.filter fun part => part.1 == key).length

/-- The declared fields among named parts, none of them given twice. -/
def namedFields? (names : List String) (parts : List (String × Input)) : Option Fields :=
  if names.all fun name => occurrences name parts ≤ 1 then
    some ⟨names.map fun name => (name, parts.lookup name)⟩
  else none

/-- The declared fields in a list of their texts, which may leave out a tail. -/
def listedFields? (names : List String) (texts : List Input) : Option Fields :=
  if texts.length ≤ names.length then
    some ⟨names.zip (texts.map some ++ List.replicate names.length none)⟩
  else none

/-- The declared fields of a delimited record. -/
def fields? (names : List String) (input : Input) : Option Fields :=
  match members? input with
  | some parts => namedFields? names parts
  | none => (items? input).bind (listedFields? names)

/-! ## What a field may hold -/

/-- A text. -/
def text? (input : Input) : Option String := string? input

/-- A truth value. -/
def truth? (input : Input) : Option Bool :=
  match input with
  | some 't' :: _ => some true
  | some 'f' :: _ => some false
  | _ => none

/-- The absent value. -/
def isNull (input : Input) : Bool := input.head? == some (some 'n')

/-- A numeral. -/
def numeral? (input : Input) : Option Numeral :=
  match input with
  | some c :: _ => if isNumeric c then (Glyph.chars? input).bind Numeral.parse? else none
  | _ => none

/-- A whole number. -/
def whole? (input : Input) : Option Int :=
  ((numeral? input).bind Numeral.integer?).map Integer.val

/-- A signed 64-bit number. -/
def int64? (input : Input) : Option Int64 :=
  (whole? input).bind fun n =>
    if n ≤ Int64.maxValue.toInt then some (.ofInt n) else none

/-- An unsigned 64-bit number. -/
def uint64? (input : Input) : Option UInt64 :=
  (whole? input).bind fun n => if 0 ≤ n then some (.ofNat n.toNat) else none

/-- A measured number, which may be spelled as a whole one. -/
def float? (input : Input) : Option Binary64 := (numeral? input).bind Numeral.float?

/-- The absent value, or what `read` finds. -/
def optional? {α : Type} (read : Input → Option α) (input : Input) : Option (Option α) :=
  if isNull input then some none else (read input).map some

/-- A list of what `read` finds. -/
def each? {α : Type} (read : Input → Option α) (input : Input) : Option (List α) :=
  (items? input).bind fun texts => texts.mapM read

/-- Any value, with the room of a field of a record. -/
def value? (input : Input) : Option Value := read? roomyField input

/-! ## Which fields must be given -/

namespace Fields

variable {α : Type}

/-- A field that must be given. -/
def required (name : String) (read : Input → Option α) (r : Fields) : Option α :=
  (r.field? name).bind read

/-- A field with a default. -/
def orElse (name : String) (default : α) (read : Input → Option α) (r : Fields) : Option α :=
  match r.field? name with
  | some input => read input
  | none => some default

end Fields

/-- The record that is alone in a text, by its declared fields. -/
def decodeFields? (names : List String) (bytes : Bytes) : Option Fields :=
  (document? bytes).bind (fields? names)

end MarketStream.Json
