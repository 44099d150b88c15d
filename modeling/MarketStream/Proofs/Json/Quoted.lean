import MarketStream.Json.Parts

/-!
# Reading quoted text back

What writing puts between the quotes of a string, reading takes as the text that was written. A
character is written in one of three ways, and each is read as that character whatever follows.

* `Escaped`, `escaped_escape` — the three ways;
* `unescape_escape` — reading is the inverse of writing;
* `string?_quote` — the same of a delimited string.
-/

namespace MarketStream.Json

/-- How a character stands in a string. -/
inductive Escaped (c : Char) : List Char → Prop where
  /-- A backslash and a letter. -/
  | short (e : Char) (known : e ∈ ['"', '\\', '/', 'b', 'f', 'n', 'r', 't'])
    (eq : short? e = some c) :
    Escaped c ['\\', e]
  /-- A backslash and the number of a control character. -/
  | hex (control : c.toNat < 32) :
    Escaped c ['\\', 'u', '0', '0', hexDigit (c.toNat / 16), hexDigit (c.toNat % 16)]
  /-- The character itself. -/
  | plain (notQuote : c ≠ '"') (notSlash : c ≠ '\\') (notControl : isControl c = false) :
    Escaped c [c]

theorem toNat_lt_of_isControl {c : Char} (h : isControl c = true) : c.toNat < 32 := by
  simpa [isControl, Char.lt_def, UInt32.lt_iff_toNat_lt] using h

/-- Every character is written in one of the three ways. -/
theorem escaped_escape (c : Char) : Escaped c (escape c) := by
  unfold escape
  split
  · next h => exact h ▸ .short '"' (by simp) rfl
  split
  · next h => exact h ▸ .short '\\' (by simp) rfl
  split
  · next h => exact h ▸ .short 'b' (by simp) rfl
  split
  · next h => exact h ▸ .short 't' (by simp) rfl
  split
  · next h => exact h ▸ .short 'n' (by simp) rfl
  split
  · next h => exact h ▸ .short 'f' (by simp) rfl
  split
  · next h => exact h ▸ .short 'r' (by simp) rfl
  split
  · next h => exact .hex (toNat_lt_of_isControl h)
  · next notQuote notSlash _ _ _ _ _ notControl =>
    exact .plain notQuote notSlash (by simpa using notControl)

theorem hexValue?_hexDigit {n : Nat} (h : n < 16) : hexValue? (hexDigit n) = some n := by
  revert n
  decide

theorem unit?_of_control {n : Nat} (h : n < 32) :
    unit? '0' '0' (hexDigit (n / 16)) (hexDigit (n % 16)) = some n := by
  have zero : hexValue? '0' = some 0 := rfl
  rw [unit?, zero, hexValue?_hexDigit (by omega), hexValue?_hexDigit (by omega)]
  simp only [Option.some.injEq]
  omega

/-- A written character is read as itself, whatever follows. -/
theorem Escaped.unescapeOnto_append {c : Char} {text : List Char} (h : Escaped c text)
    (seen rest : List Char) : unescapeOnto seen (text ++ rest) = unescapeOnto (c :: seen) rest := by
  cases h with
  | short e known eq =>
    have notHex : e ≠ 'u' := by
      rintro rfl
      cases eq
    show unescapeOnto seen ('\\' :: e :: rest) = _
    rw [unescapeOnto, eq]
    · exact fun _ _ _ _ _ isHex _ => notHex isHex
  | hex control =>
    -- A control character is not half of a pair, so it stands for itself.
    have notHigh : isHighUnit c.toNat = false := by
      simp only [isHighUnit, Bool.and_eq_false_iff, decide_eq_false_iff_not]
      omega
    have notLow : isLowUnit c.toNat = false := by
      simp only [isLowUnit, Bool.and_eq_false_iff, decide_eq_false_iff_not]
      omega
    show unescapeOnto seen ('\\' :: 'u' :: '0' :: '0' :: _ :: _ :: rest) = _
    rw [unescapeOnto, unit?_of_control control]
    simp only [notHigh, notLow, Char.ofNat_toNat]
    rfl
  | plain notQuote notSlash notControl =>
    show unescapeOnto seen (c :: rest) = _
    rw [unescapeOnto]
    · simp [notQuote, notSlash, notControl]
    · exact fun _ _ _ _ _ isSlash _ => notSlash isSlash
    · exact fun _ _ isSlash _ => notSlash isSlash

theorem unescapeOnto_flatMap_escape (seen cs : List Char) :
    unescapeOnto seen (cs.flatMap escape) = some (seen.reverse ++ cs) := by
  induction cs generalizing seen with
  | nil => simp [unescapeOnto]
  | cons c rest ih =>
    rw [List.flatMap_cons, (escaped_escape c).unescapeOnto_append, ih]
    simp

/-- Reading what stands between quotes is the inverse of writing it. -/
theorem unescape_escape (s : String) : unescape (s.toList.flatMap escape) = some s := by
  rw [unescape, unescapeOnto_flatMap_escape]
  simp

theorem chars?_map_some (cs : List Char) : Glyph.chars? (cs.map some) = some cs := by
  induction cs with
  | nil => rfl
  | cons c rest ih =>
    rw [Glyph.chars?] at ih ⊢
    rw [List.map_cons, List.mapM_cons, ih]
    rfl

/-- What has characters is made of them. -/
theorem eq_map_some_of_chars? {gs : List Glyph} {cs : List Char} (h : Glyph.chars? gs = some cs) :
    gs = cs.map some := by
  induction gs generalizing cs with
  | nil =>
    cases h
    rfl
  | cons g rest ih =>
    rw [Glyph.chars?, List.mapM_cons] at h
    obtain ⟨c, (first : g = some c), h⟩ := Option.bind_eq_some_iff.mp h
    obtain ⟨tail, more, h⟩ := Option.bind_eq_some_iff.mp h
    obtain rfl := Option.some.inj h
    rw [first, ih more, List.map_cons]

/-- A text between quotes is read by what stands there. -/
theorem string?_between (inside : List Char) :
    string? (('"' :: (inside ++ ['"'])).map some) = unescape inside := by
  rw [List.map_cons, string?, List.map_append]
  show (Glyph.chars? (inside.map some ++ [some '"']).dropLast).bind unescape = _
  rw [List.dropLast_concat, chars?_map_some]
  rfl

/-- A written text is read back. -/
theorem string?_quote (s : String) : string? ((quote s).map some) = some s := by
  rw [quote, string?_between, unescape_escape]

end MarketStream.Json
