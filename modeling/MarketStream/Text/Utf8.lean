/-!
# Bytes and the characters they spell

A frame arrives as bytes and is read as characters. Reading is *lenient*: a byte that is not part
of a well-formed UTF-8 sequence becomes a stray glyph, so a reader can walk over it where the
bytes are only skipped and refuse it where they are kept.

* `Bytes` — what travels on a link or a bus;
* `Glyph` — one character, or one stray byte;
* `glyphs` — the lenient reading of bytes;
* `utf8` — the bytes of a text;
* `text?` — the strict reading, defined on well-formed bytes only.
-/

namespace MarketStream

/-- What travels on a link or on the bus. -/
abbrev Bytes := List UInt8

/-- One character of an input, or `none` for a byte that belongs to no character. -/
abbrev Glyph := Option Char

/-- The UTF-8 bytes of a list of characters. -/
def utf8 (cs : List Char) : Bytes := cs.flatMap String.utf8EncodeChar

/-- The strict reading: the characters of well-formed bytes. -/
def chars? (bytes : Bytes) : Option (List Char) := bytes.toByteArray.utf8Decode?.map Array.toList

/-- The strict reading as one text. -/
def text? (bytes : Bytes) : Option String := (chars? bytes).map String.ofList

/-- Reads `bytes` from position `i` on, taking a character where one starts and a stray byte
elsewhere; `fuel` bounds the number of glyphs and `seen` holds those read so far, last first. -/
def resync (bytes : ByteArray) : (fuel i : Nat) → (seen : List Glyph) → List Glyph
  | 0, _, seen => seen.reverse
  | fuel + 1, i, seen =>
    if i < bytes.size then
      match bytes.utf8DecodeChar? i with
      | some c => resync bytes fuel (i + c.utf8Size) (some c :: seen)
      | none => resync bytes fuel (i + 1) (none :: seen)
    else seen.reverse

/-- The lenient reading: every character of the input, with a stray glyph for each byte that
belongs to none. On well-formed bytes it is the strict reading. -/
def glyphs (bytes : Bytes) : List Glyph :=
  match chars? bytes with
  | some cs => cs.map some
  | none => resync bytes.toByteArray bytes.length 0 []

/-- The characters of a list of glyphs, if none of them is stray. -/
def Glyph.chars? (gs : List Glyph) : Option (List Char) := gs.mapM id

/-- The bytes of a text. -/
def textBytes (s : String) : Bytes := utf8 s.toList

/-- A text's bytes read back as its characters. -/
theorem chars?_utf8 (cs : List Char) : chars? (utf8 cs) = some cs := by
  have h : (utf8 cs).toByteArray = cs.utf8Encode := rfl
  simp [chars?, h]

/-- The lenient reading of a text's bytes is the text. -/
theorem glyphs_utf8 (cs : List Char) : glyphs (utf8 cs) = cs.map some := by
  simp [glyphs, chars?_utf8]

end MarketStream
