import MarketStream.Text.Utf8

/-!
# Quoted text

How a text stands between the quotes of a JSON string. Writing escapes the quote, the backslash
and control characters; reading also knows the other escapes, where a character outside the basic
plane is spelled as two surrogate units that must come as a pair.

* `escape`, `quote` — writing one character, and a text with its quotes;
* `unescape` — reading what stands between the quotes.
-/

namespace MarketStream.Json

/-- The digit of a number below sixteen, in lower case. -/
def hexDigit (n : Nat) : Char :=
  if n < 10 then Char.ofNat (48 + n) else Char.ofNat (87 + n)

/-- The number of a hexadecimal digit in either case. -/
def hexValue? (c : Char) : Option Nat :=
  if '0' ≤ c ∧ c ≤ '9' then some (c.toNat - 48)
  else if 'a' ≤ c ∧ c ≤ 'f' then some (c.toNat - 87)
  else if 'A' ≤ c ∧ c ≤ 'F' then some (c.toNat - 55)
  else none

/-- A character that may not stand in a string as itself. -/
def isControl (c : Char) : Bool := c < ' '

/-- How one character stands in a string. -/
def escape (c : Char) : List Char :=
  if c = '"' then ['\\', '"']
  else if c = '\\' then ['\\', '\\']
  else if c = '\x08' then ['\\', 'b']
  else if c = '\t' then ['\\', 't']
  else if c = '\n' then ['\\', 'n']
  else if c = '\x0c' then ['\\', 'f']
  else if c = '\r' then ['\\', 'r']
  else if isControl c then ['\\', 'u', '0', '0', hexDigit (c.toNat / 16), hexDigit (c.toNat % 16)]
  else [c]

/-- A text between quotes. -/
def quote (s : String) : List Char := '"' :: (s.toList.flatMap escape ++ ['"'])

/-- The character that a one-letter escape stands for. -/
def short? (c : Char) : Option Char :=
  match c with
  | '"' => some '"'
  | '\\' => some '\\'
  | '/' => some '/'
  | 'b' => some '\x08'
  | 'f' => some '\x0c'
  | 'n' => some '\n'
  | 'r' => some '\r'
  | 't' => some '\t'
  | _ => none

/-- The number of four hexadecimal digits. -/
def unit? (a b c d : Char) : Option Nat :=
  match hexValue? a, hexValue? b, hexValue? c, hexValue? d with
  | some a, some b, some c, some d => some (a * 4096 + b * 256 + c * 16 + d)
  | _, _, _, _ => none

/-- The first unit of a surrogate pair. -/
def isHighUnit (u : Nat) : Bool := 0xD800 ≤ u && u ≤ 0xDBFF

/-- The second unit of a surrogate pair. -/
def isLowUnit (u : Nat) : Bool := 0xDC00 ≤ u && u ≤ 0xDFFF

/-- The character of a surrogate pair. -/
def paired (high low : Nat) : Char := Char.ofNat (0x10000 + (high - 0xD800) * 1024 + (low - 0xDC00))

/-- Reads the inside of a string onto the characters `seen` so far, last first. -/
def unescapeOnto (seen : List Char) : List Char → Option (List Char)
  | [] => some seen.reverse
  | '\\' :: 'u' :: a :: b :: c :: d :: rest =>
    match unit? a b c d with
    | none => none
    | some high =>
      if isHighUnit high then
        match rest with
        | '\\' :: 'u' :: e :: f :: g :: h :: rest =>
          match unit? e f g h with
          | none => none
          | some low => if isLowUnit low then unescapeOnto (paired high low :: seen) rest else none
        | _ => none
      else if isLowUnit high then none
      else unescapeOnto (Char.ofNat high :: seen) rest
  | '\\' :: e :: rest =>
    match short? e with
    | none => none
    | some c => unescapeOnto (c :: seen) rest
  | c :: rest =>
    if c = '"' ∨ c = '\\' ∨ isControl c then none else unescapeOnto (c :: seen) rest

/-- The text spelled by the inside of a string. -/
def unescape (inside : List Char) : Option String := (unescapeOnto [] inside).map String.ofList

end MarketStream.Json
