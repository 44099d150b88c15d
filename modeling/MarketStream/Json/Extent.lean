import MarketStream.Json.Number
import MarketStream.Text.Utf8

/-!
# Where a JSON value ends

A value is delimited before it is decoded, so that a payload can be kept as the text it arrived
as, and fields that nobody asked for can be passed over. The grammar is a push-down automaton: a
*spot* says what may come next and a stack holds the brackets that are open. It checks shape only:
neither the depth of a text nor the size of its numbers is limited, an escape need only be well
formed, and a stray byte may stand inside a string.

* `Spot`, `Bracket` — the state of the automaton; `step` — one glyph;
* `cut` — passes over a value; `extent?` — cuts a value off the front of an input;
* `document?` — the extent of the one value of a whole input.
-/

namespace MarketStream.Json

/-- What a JSON text is read from. -/
abbrev Input := List Glyph

/-- An open bracket. -/
inductive Bracket where
  /-- `[` -/
  | list
  /-- `{` -/
  | record
deriving DecidableEq

/-- Where in a string the automaton stands. -/
inductive Quoting where
  /-- Between characters. -/
  | plain
  /-- After a backslash. -/
  | escaped
  /-- Before the last `left + 1` digits of a hexadecimal escape. -/
  | hex (left : Nat)
deriving DecidableEq

/-- What may come next. -/
inductive Spot where
  /-- A value. -/
  | value
  /-- A value or the end of an empty list. -/
  | firstItem
  /-- A key or the end of an empty record. -/
  | firstKey
  /-- A key. -/
  | key
  /-- The colon after a key. -/
  | colon
  /-- What follows a value inside a bracket. -/
  | after
  /-- The rest of a word. -/
  | word (rest : List Char)
  /-- The rest of a string, which may be a key. -/
  | quoted (asKey : Bool) (at_ : Quoting)
  /-- The rest of a number, of which `run` has been seen, last first. -/
  | number (run : List Char)
deriving DecidableEq

/-- What one glyph does to the automaton. -/
inductive Outcome where
  /-- It goes on. -/
  | more (spot : Spot) (opened : List Bracket)
  /-- The glyph is the last of the value. -/
  | closed
  /-- The value ended before the glyph. -/
  | ended
  /-- There is no value here. -/
  | bad
deriving DecidableEq

/-- The four characters that may stand between the parts of a text. -/
def isSpace (c : Char) : Bool := c == ' ' || c == '\t' || c == '\n' || c == '\r'

/-- A space, as a glyph. -/
def isSpaceGlyph (g : Glyph) : Bool := g.any isSpace

/-- The input without leading spaces. -/
def dropSpace (input : Input) : Input := input.dropWhile isSpaceGlyph

/-- A character that can stand in a number. -/
def isNumeric (c : Char) : Bool :=
  c.isDigit || c == '-' || c == '+' || c == '.' || c == 'e' || c == 'E'

/-- A value has just ended inside the given brackets. -/
def finish (opened : List Bracket) : Outcome :=
  if opened = [] then .closed else .more .after opened

/-- The first character of a value. -/
def begin? (opened : List Bracket) (c : Char) : Outcome :=
  if c = '"' then .more (.quoted false .plain) opened
  else if c = '[' then .more .firstItem (.list :: opened)
  else if c = '{' then .more .firstKey (.record :: opened)
  else if c = 't' then .more (.word ['r', 'u', 'e']) opened
  else if c = 'f' then .more (.word ['a', 'l', 's', 'e']) opened
  else if c = 'n' then .more (.word ['u', 'l', 'l']) opened
  else if c = '-' ∨ c.isDigit then .more (.number [c]) opened
  else .bad

/-- A character after a value inside a bracket. -/
def follow (opened : List Bracket) (c : Char) : Outcome :=
  if isSpace c then .more .after opened
  else
    match opened with
    | .list :: outer =>
      if c = ',' then .more .value opened else if c = ']' then finish outer else .bad
    | .record :: outer =>
      if c = ',' then .more .key opened else if c = '}' then finish outer else .bad
    | [] => .bad

/-- A glyph inside a string. -/
def stepQuoted (opened : List Bracket) (asKey : Bool) : Quoting → Glyph → Outcome
  | .plain, none => .more (.quoted asKey .plain) opened
  | .plain, some c =>
    if c = '"' then (if asKey then .more .colon opened else finish opened)
    else if c = '\\' then .more (.quoted asKey .escaped) opened
    else if c < ' ' then .bad
    else .more (.quoted asKey .plain) opened
  | .escaped, some c =>
    if c = 'u' then .more (.quoted asKey (.hex 3)) opened
    else if c ∈ ['"', '\\', '/', 'b', 'f', 'n', 'r', 't'] then .more (.quoted asKey .plain) opened
    else .bad
  | .hex left, some c =>
    if c.isDigit ∨ ('a' ≤ c ∧ c ≤ 'f') ∨ ('A' ≤ c ∧ c ≤ 'F') then
      match left with
      | 0 => .more (.quoted asKey .plain) opened
      | left + 1 => .more (.quoted asKey (.hex left)) opened
    else .bad
  | _, none => .bad

/-- Whether the characters of a number, last first, spell one. -/
def spellsNumber (run : List Char) : Bool := (Numeral.parse? run.reverse).isSome

/-- One glyph. -/
def step (opened : List Bracket) : Spot → Glyph → Outcome
  | .quoted asKey at_, g => stepQuoted opened asKey at_ g
  | .value, some c => if isSpace c then .more .value opened else begin? opened c
  | .firstItem, some c =>
    if isSpace c then .more .firstItem opened
    else if c = ']' then finish opened.tail
    else begin? opened c
  | .firstKey, some c =>
    if isSpace c then .more .firstKey opened
    else if c = '"' then .more (.quoted true .plain) opened
    else if c = '}' then finish opened.tail
    else .bad
  | .key, some c =>
    if isSpace c then .more .key opened
    else if c = '"' then .more (.quoted true .plain) opened
    else .bad
  | .colon, some c =>
    if isSpace c then .more .colon opened else if c = ':' then .more .value opened else .bad
  | .after, some c => follow opened c
  | .word (w :: rest), some c =>
    if c = w then (if rest = [] then finish opened else .more (.word rest) opened) else .bad
  | .number run, some c =>
    if isNumeric c then .more (.number (c :: run)) opened
    else if spellsNumber run then (if opened = [] then .ended else follow opened c)
    else .bad
  | .number run, none => if spellsNumber run ∧ opened = [] then .ended else .bad
  | _, _ => .bad

/-- Cuts an input at the end of a value, of which `seen` has been passed over, last first. -/
def cut (seen : Input) (spot : Spot) (opened : List Bracket) : Input → Option (Input × Input)
  | [] =>
    match spot with
    | .number run => if spellsNumber run ∧ opened = [] then some (seen.reverse, []) else none
    | _ => none
  | g :: rest =>
    match step opened spot g with
    | .more spot opened => cut (g :: seen) spot opened rest
    | .closed => some ((g :: seen).reverse, rest)
    | .ended => some (seen.reverse, g :: rest)
    | .bad => none

/-- Cuts the first value off an input, without the spaces before it. -/
def extent? (input : Input) : Option (Input × Input) := cut [] .value [] (dropSpace input)

/-- The extent of a value that is alone in an input. -/
def alone? (input : Input) : Option Input :=
  match extent? input with
  | some (value, rest) => if rest.all isSpaceGlyph then some value else none
  | none => none

/-- The extent of the one value of a text. -/
def document? (bytes : Bytes) : Option Input := alone? (glyphs bytes)

end MarketStream.Json
