import MarketStream.Json.Number
import MarketStream.Json.Quoted

/-!
# Writing JSON

Texts are compact: nothing stands between the parts but the marks themselves.

* `list`, `record` — brackets around written parts;
* `Value.write` — the text of a value.
-/

namespace MarketStream.Json

/-- Written parts with commas between them. -/
def commas : List (List Char) → List Char
  | [] => []
  | [part] => part
  | part :: rest => part ++ ',' :: commas rest

/-- A list of written parts. -/
def list (parts : List (List Char)) : List Char := '[' :: (commas parts ++ [']'])

/-- A written member of a record. -/
def member (entry : String × List Char) : List Char := quote entry.1 ++ ':' :: entry.2

/-- A record of written parts, in the given order. -/
def record (entries : List (String × List Char)) : List Char :=
  '\x7b' :: (commas (entries.map member) ++ ['\x7d'])

/-- The text of a truth value. -/
def writeBool (b : Bool) : List Char :=
  if b then ['t', 'r', 'u', 'e'] else ['f', 'a', 'l', 's', 'e']

/-- The text of the absent value. -/
def writeNull : List Char := ['n', 'u', 'l', 'l']

namespace Value

mutual
/-- The text of a value. -/
def write : Value → List Char
  | .null => writeNull
  | .bool b => writeBool b
  | .integer n => writeInteger n
  | .float x => writeFloat x
  | .string s => quote s
  | .array items => list (writeItems items)
  | .object members => record (writeMembers members)

/-- The texts of items. -/
def writeItems : List Value → List (List Char)
  | [] => []
  | v :: rest => write v :: writeItems rest

/-- The keys of members with the texts of their values. -/
def writeMembers : List (String × Value) → List (String × List Char)
  | [] => []
  | (key, v) :: rest => (key, write v) :: writeMembers rest
end

/-- The text of a value. -/
def text (v : Value) : String := String.ofList v.write

end Value

end MarketStream.Json
