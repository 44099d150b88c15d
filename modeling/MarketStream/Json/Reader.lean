import MarketStream.Json.Parts

/-!
# Reading JSON values

A delimited text is read into a value part by part. Brackets may nest 127 deep, counted from the
start of the text; a value inside a record has correspondingly less room. An object may stand for
the value of a text that it holds under a reserved key, which is read as a text of its own.

* `read?` — the value of a delimited text; `readFlat?` — without the reserved key;
* `decode?`, `ofText?` — the value of a text;
* `readMembers?`, `decodeMembers?` — the members of an object, whatever their keys;
* `roomy`, `roomyField` — the room of a text and of a field of a record.
-/

namespace MarketStream.Json

/-- How deep brackets may nest in a text. -/
def roomy : Nat := 127

/-- How deep brackets may nest in a field of a record. -/
def roomyField : Nat := 126

/-- The reserved key. An object that starts with it has no other member and stands for the value of
the text under it. -/
def reservedKey : String := "$serde_json::private::RawValue"

/-- The members of an object by their texts. -/
def valuesOf? (read : Input → Option Value) (parts : List (String × Input)) : Option Members :=
  (parts.mapM fun part => (read part.2).map fun v => (part.1, v)).map Members.ofList

/-- The value of an object by the texts of its members. `held` reads the text under the reserved
key; without it, that key is a key like any other. -/
def objectOf? (held : Option (String → Option Value)) (read : Input → Option Value)
    (parts : List (String × Input)) : Option Value :=
  match held, parts with
  | some readHeld, (key, text) :: rest =>
    if key = reservedKey then
      if rest.isEmpty then (string? text).bind readHeld else none
    else (valuesOf? read parts).map .object
  | _, _ => (valuesOf? read parts).map .object

/-- The value of a delimited text in which brackets nest at most `room` deep, where `held` reads
the texts that objects hold. -/
def readHolding? (held : Option (String → Option Value)) (room : Nat) (input : Input) :
    Option Value :=
  match input with
  | some '{' :: _ =>
    match room with
    | 0 => none
    | room + 1 => (members? input).bind (objectOf? held fun text => readHolding? held room text)
  | some '[' :: _ =>
    match room with
    | 0 => none
    | room + 1 =>
      (items? input).bind fun texts =>
        (texts.mapM fun text => readHolding? held room text).map .array
  | some '"' :: _ => (string? input).map .string
  | some 't' :: _ => some (.bool true)
  | some 'f' :: _ => some (.bool false)
  | some 'n' :: _ => some .null
  | _ => ((Glyph.chars? input).bind Numeral.parse?).bind Numeral.value?

/-- The value of a delimited text, no key of which is reserved. -/
def readFlat? (room : Nat) (input : Input) : Option Value := readHolding? none room input

/-- The value of a text that holds texts at most `layers` deep. -/
def ofHeld? : (layers : Nat) → String → Option Value
  | 0, _ => none
  | layers + 1, s =>
    (document? (textBytes s)).bind (readHolding? (some (ofHeld? layers)) roomy)

/-- The value of a delimited text in which brackets nest at most `room` deep. A text that it holds
is shorter than itself, so its length bounds how deep texts hold texts. -/
def read? (room : Nat) (input : Input) : Option Value :=
  readHolding? (some (ofHeld? input.length)) room input

/-- The value of a text. -/
def decode? (bytes : Bytes) : Option Value := (document? bytes).bind (read? roomy)

/-- The value of a text that is a string of characters. -/
def ofText? (s : String) : Option Value := decode? (textBytes s)

/-- The members of a delimited object. The object itself stands for no other value. -/
def readMembers? (input : Input) : Option Members :=
  (members? input).bind (valuesOf? (read? roomyField))

/-- The members of the object that is alone in a text. -/
def decodeMembers? (bytes : Bytes) : Option Members := (document? bytes).bind readMembers?

end MarketStream.Json
