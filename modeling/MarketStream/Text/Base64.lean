import MarketStream.Text.Utf8

/-!
# Base64

Payloads travel inside envelopes in the standard alphabet, with the padding that makes every text
a whole number of four-letter groups. Reading is strict: a text is accepted only if it is exactly
what writing its bytes gives, so there is one text for each payload.

* `Base64.encode` — three bytes to four letters, the last group padded with `=`;
* `Base64.decode?` — the inverse, refusing letters outside the alphabet, missing or excess padding
  and leftover bits that are not zero.
-/

namespace MarketStream.Base64

/-- The letter of a six-bit number. -/
def letter (n : Nat) : Char :=
  if n < 26 then Char.ofNat (65 + n)
  else if n < 52 then Char.ofNat (97 + (n - 26))
  else if n < 62 then Char.ofNat (48 + (n - 52))
  else if n = 62 then '+' else '/'

/-- The six-bit number of a letter of the alphabet. -/
def sextet? (c : Char) : Option Nat :=
  if 'A' ≤ c ∧ c ≤ 'Z' then some (c.toNat - 65)
  else if 'a' ≤ c ∧ c ≤ 'z' then some (c.toNat - 97 + 26)
  else if '0' ≤ c ∧ c ≤ '9' then some (c.toNat - 48 + 52)
  else if c = '+' then some 62
  else if c = '/' then some 63
  else none

/-- The four letters of three bytes. -/
def triple (a b c : UInt8) : List Char :=
  let n := a.toNat * 65536 + b.toNat * 256 + c.toNat
  [letter (n / 262144), letter (n / 4096 % 64), letter (n / 64 % 64), letter (n % 64)]

/-- Writes bytes in groups of three onto the letters `seen` so far, last first. -/
def encodeOnto (seen : List Char) : Bytes → List Char
  | a :: b :: c :: rest => encodeOnto ((triple a b c).reverse ++ seen) rest
  | [a, b] => (((triple a b 0).take 3) ++ ['=']).reverse ++ seen
  | [a] => (((triple a 0 0).take 2) ++ ['=', '=']).reverse ++ seen
  | [] => seen

/-- The text of a payload. -/
def encode (bytes : Bytes) : List Char := (encodeOnto [] bytes).reverse

/-- The three bytes of a 24-bit number. -/
def bytesOf (n : Nat) : Bytes :=
  [UInt8.ofNat (n / 65536 % 256), UInt8.ofNat (n / 256 % 256), UInt8.ofNat (n % 256)]

/-- The bytes of one padded or full group of letters, and whether it must be the last. -/
def group? (a b c d : Char) : Option (Bytes × Bool) :=
  match sextet? a, sextet? b, sextet? c, sextet? d with
  | some w, some x, some y, some z =>
    some (bytesOf (w * 262144 + x * 4096 + y * 64 + z), false)
  | some w, some x, some y, none =>
    if d = '=' ∧ y % 4 = 0 then
      some ((bytesOf (w * 262144 + x * 4096 + y * 64)).take 2, true)
    else none
  | some w, some x, none, none =>
    if c = '=' ∧ d = '=' ∧ x % 16 = 0 then
      some ((bytesOf (w * 262144 + x * 4096)).take 1, true)
    else none
  | _, _, _, _ => none

/-- Reads groups of four letters onto the bytes `seen` so far, last first. -/
def decodeOnto (seen : Bytes) : List Char → Option Bytes
  | a :: b :: c :: d :: rest =>
    match group? a b c d with
    | some (bytes, true) => if rest = [] then some (bytes.reverse ++ seen) else none
    | some (bytes, false) => decodeOnto (bytes.reverse ++ seen) rest
    | none => none
  | [] => some seen
  | _ => none

/-- The payload of a text, if the text is the one that `encode` writes for it. -/
def decode? (text : List Char) : Option Bytes := (decodeOnto [] text).map List.reverse

end MarketStream.Base64
