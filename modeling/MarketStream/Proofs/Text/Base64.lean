import MarketStream.Text.Base64

/-!
# Reading base64 back

Three bytes are four sextets, and a padded last group spells the bytes that it stands for, so what
is written is read as the bytes that were written. A group is read only if it is what its bytes are
written as.

* `encode_cons` — writing, group by group;
* `group?_letters`, `group?_letters_pad`, `group?_letters_pads` — reading one group;
* `decode?_encode` — reading is the inverse of writing;
* `decode?_eq_some_iff` — and accepts nothing else, so each payload has one text.
-/

namespace MarketStream.Base64

/-! ## Writing -/

theorem encodeOnto_append (seen : List Char) : ∀ bytes : Bytes,
    encodeOnto seen bytes = encodeOnto [] bytes ++ seen
  | [] => rfl
  | [a] => by simp [encodeOnto]
  | [a, b] => by simp [encodeOnto]
  | a :: b :: c :: rest => by
    rw [encodeOnto, encodeOnto, encodeOnto_append _ rest,
      encodeOnto_append ((triple a b c).reverse ++ []) rest]
    simp

/-- Three bytes are written on their own. -/
theorem encode_cons (a b c : UInt8) (rest : Bytes) :
    encode (a :: b :: c :: rest) = triple a b c ++ encode rest := by
  rw [encode, encodeOnto, encodeOnto_append]
  simp [encode]

theorem encode_pair (a b : UInt8) : encode [a, b] = (triple a b 0).take 3 ++ ['='] := by
  simp [encode, encodeOnto]

theorem encode_single (a : UInt8) : encode [a] = (triple a 0 0).take 2 ++ ['=', '='] := by
  simp [encode, encodeOnto]

/-! ## Reading a group -/

/-- A letter stands for its number. -/
theorem sextet?_letter : ∀ n < 64, sextet? (letter n) = some n := by decide

theorem sextet?_pad : sextet? '=' = none := by decide

theorem bytesOf_eq (a b c : UInt8) :
    bytesOf (a.toNat * 65536 + b.toNat * 256 + c.toNat) = [a, b, c] := by
  have ha := a.toNat_lt
  have hb := b.toNat_lt
  have hc := c.toNat_lt
  have first : (a.toNat * 65536 + b.toNat * 256 + c.toNat) / 65536 % 256 = a.toNat := by omega
  have second : (a.toNat * 65536 + b.toNat * 256 + c.toNat) / 256 % 256 = b.toNat := by omega
  have third : (a.toNat * 65536 + b.toNat * 256 + c.toNat) % 256 = c.toNat := by omega
  rw [bytesOf, first, second, third, UInt8.ofNat_toNat, UInt8.ofNat_toNat, UInt8.ofNat_toNat]

section

variable {n : Nat}

/-- The four sextets of a 24-bit number. -/
theorem group?_letters (h : n < 0x1000000) :
    group? (letter (n / 262144)) (letter (n / 4096 % 64)) (letter (n / 64 % 64)) (letter (n % 64))
      = some (bytesOf n, false) := by
  have sum : n / 262144 * 262144 + n / 4096 % 64 * 4096 + n / 64 % 64 * 64 + n % 64 = n := by omega
  rw [group?, sextet?_letter _ (by omega), sextet?_letter _ (by omega), sextet?_letter _ (by omega),
    sextet?_letter _ (by omega)]
  dsimp only
  rw [sum]

/-- Three sextets and a pad, of a 24-bit number whose last byte is zero. -/
theorem group?_letters_pad (h : n < 0x1000000) (zero : n % 256 = 0) :
    group? (letter (n / 262144)) (letter (n / 4096 % 64)) (letter (n / 64 % 64)) '='
      = some ((bytesOf n).take 2, true) := by
  have sum : n / 262144 * 262144 + n / 4096 % 64 * 4096 + n / 64 % 64 * 64 = n := by omega
  rw [group?, sextet?_letter _ (by omega), sextet?_letter _ (by omega), sextet?_letter _ (by omega),
    sextet?_pad]
  dsimp only
  rw [sum, if_pos ⟨rfl, by omega⟩]

/-- Two sextets and two pads, of a 24-bit number whose last two bytes are zero. -/
theorem group?_letters_pads (h : n < 0x1000000) (zero : n % 65536 = 0) :
    group? (letter (n / 262144)) (letter (n / 4096 % 64)) '=' '='
      = some ((bytesOf n).take 1, true) := by
  have sum : n / 262144 * 262144 + n / 4096 % 64 * 4096 = n := by omega
  rw [group?, sextet?_letter _ (by omega), sextet?_letter _ (by omega), sextet?_pad]
  dsimp only
  rw [sum, if_pos ⟨rfl, rfl, by omega⟩]

end

/-! ## Reading back -/

theorem decodeOnto_encode (seen : Bytes) : ∀ bytes : Bytes,
    decodeOnto seen (encode bytes) = some (bytes.reverse ++ seen)
  | [] => rfl
  | [a] => by
    have ha := a.toNat_lt
    -- The bytes that are missing from the last group count as zero.
    have group := group?_letters_pads (n := a.toNat * 65536 + (0 : UInt8).toNat * 256
      + (0 : UInt8).toNat) (by simp; omega) (by simp)
    rw [encode_single, triple]
    show decodeOnto seen (_ :: _ :: '=' :: '=' :: []) = _
    rw [decodeOnto, group, bytesOf_eq]
    rfl
  | [a, b] => by
    have ha := a.toNat_lt
    have hb := b.toNat_lt
    have group := group?_letters_pad (n := a.toNat * 65536 + b.toNat * 256
      + (0 : UInt8).toNat) (by simp; omega) (by simp; omega)
    rw [encode_pair, triple]
    show decodeOnto seen (_ :: _ :: _ :: '=' :: []) = _
    rw [decodeOnto, group, bytesOf_eq]
    rfl
  | a :: b :: c :: rest => by
    have ha := a.toNat_lt
    have hb := b.toNat_lt
    have hc := c.toNat_lt
    rw [encode_cons, triple]
    show decodeOnto seen (_ :: _ :: _ :: _ :: encode rest) = _
    rw [decodeOnto, group?_letters (by omega), bytesOf_eq]
    dsimp only
    rw [decodeOnto_encode _ rest]
    simp

/-- Reading is the inverse of writing. -/
theorem decode?_encode (bytes : Bytes) : decode? (encode bytes) = some bytes := by
  simp [decode?, decodeOnto_encode]

/-! ## One text for each payload -/

/-- What stands for a number is its letter. -/
theorem eq_letter_of_sextet? {c : Char} {n : Nat} (h : sextet? c = some n) :
    n < 64 ∧ c = letter n := by
  have codes (lo hi : Char) (low : lo ≤ c) (high : c ≤ hi) :
      lo.toNat ≤ c.toNat ∧ c.toNat ≤ hi.toNat := ⟨low, high⟩
  have self := c.ofNat_toNat
  rw [sextet?] at h
  split at h
  · next upper =>
    obtain ⟨low, high⟩ : 65 ≤ c.toNat ∧ c.toNat ≤ 90 := codes 'A' 'Z' upper.1 upper.2
    obtain rfl := Option.some.inj h
    refine ⟨by omega, ?_⟩
    rw [letter, if_pos (by omega), Nat.add_sub_cancel' low, self]
  split at h
  · next lower =>
    obtain ⟨low, high⟩ : 97 ≤ c.toNat ∧ c.toNat ≤ 122 := codes 'a' 'z' lower.1 lower.2
    obtain rfl := Option.some.inj h
    refine ⟨by omega, ?_⟩
    rw [letter, if_neg (by omega), if_pos (by omega), Nat.add_sub_cancel,
      Nat.add_sub_cancel' low, self]
  split at h
  · next digit =>
    obtain ⟨low, high⟩ : 48 ≤ c.toNat ∧ c.toNat ≤ 57 := codes '0' '9' digit.1 digit.2
    obtain rfl := Option.some.inj h
    refine ⟨by omega, ?_⟩
    rw [letter, if_neg (by omega), if_neg (by omega), if_pos (by omega), Nat.add_sub_cancel,
      Nat.add_sub_cancel' low, self]
  split at h
  · next plus =>
    obtain rfl := Option.some.inj h
    exact ⟨by omega, plus⟩
  split at h
  · next slash =>
    obtain rfl := Option.some.inj h
    exact ⟨by omega, slash⟩
  · cases h

/-- The letters of the bytes of a 24-bit number. -/
theorem triple_bytesOf {n : Nat} {a b c : UInt8} (h : n < 0x1000000) (eq : bytesOf n = [a, b, c]) :
    triple a b c
      = [letter (n / 262144), letter (n / 4096 % 64), letter (n / 64 % 64), letter (n % 64)] := by
  simp only [bytesOf, List.cons.injEq, and_true] at eq
  obtain ⟨rfl, rfl, rfl⟩ := eq
  have sum : (UInt8.ofNat (n / 65536 % 256)).toNat * 65536
      + (UInt8.ofNat (n / 256 % 256)).toNat * 256 + (UInt8.ofNat (n % 256)).toNat = n := by
    simp only [UInt8.toNat_ofNat']
    omega
  rw [triple, sum]

theorem bytesOf_of_last {n : Nat} (last : n % 256 = 0) : ∃ a b, bytesOf n = [a, b, 0] := by
  rw [bytesOf, last]
  exact ⟨_, _, rfl⟩

theorem bytesOf_of_last_two {n : Nat} (last : n % 65536 = 0) : ∃ a, bytesOf n = [a, 0, 0] := by
  have second : n / 256 % 256 = 0 := by omega
  have third : n % 256 = 0 := by omega
  rw [bytesOf, second, third]
  exact ⟨_, rfl⟩

section

variable {w x y z : Nat}

/-- The letters of a number by its sextets. -/
theorem triple_of_sextets {a b c : UInt8} (hw : w < 64) (hx : x < 64) (hy : y < 64) (hz : z < 64)
    (eq : bytesOf (w * 262144 + x * 4096 + y * 64 + z) = [a, b, c]) :
    triple a b c = [letter w, letter x, letter y, letter z] := by
  have first : (w * 262144 + x * 4096 + y * 64 + z) / 262144 = w := by omega
  have second : (w * 262144 + x * 4096 + y * 64 + z) / 4096 % 64 = x := by omega
  have third : (w * 262144 + x * 4096 + y * 64 + z) / 64 % 64 = y := by omega
  have fourth : (w * 262144 + x * 4096 + y * 64 + z) % 64 = z := by omega
  rw [triple_bytesOf (by omega) eq, first, second, third, fourth]

end

section

variable {a b c d : Char} {bytes : Bytes}

/-- A group that is not padded is what its three bytes are written as. -/
theorem triple_of_group? (h : group? a b c d = some (bytes, false)) :
    ∃ x y z, bytes = [x, y, z] ∧ triple x y z = [a, b, c, d] := by
  rw [group?.eq_def] at h
  split at h
  · next w x y z hw hx hy hz =>
    obtain ⟨lw, rfl⟩ := eq_letter_of_sextet? hw
    obtain ⟨lx, rfl⟩ := eq_letter_of_sextet? hx
    obtain ⟨ly, rfl⟩ := eq_letter_of_sextet? hy
    obtain ⟨lz, rfl⟩ := eq_letter_of_sextet? hz
    obtain ⟨rfl, -⟩ := Prod.mk.inj (Option.some.inj h)
    exact ⟨_, _, _, rfl, triple_of_sextets lw lx ly lz rfl⟩
  · split at h <;> cases h
  · split at h <;> cases h
  · cases h

/-- A padded group is what its one or two bytes are written as. -/
theorem encode_of_group? (h : group? a b c d = some (bytes, true)) :
    encode bytes = [a, b, c, d] := by
  rw [group?.eq_def] at h
  split at h
  · cases h
  · next w x y hw hx hy _ =>
    obtain ⟨lw, rfl⟩ := eq_letter_of_sextet? hw
    obtain ⟨lx, rfl⟩ := eq_letter_of_sextet? hx
    obtain ⟨ly, rfl⟩ := eq_letter_of_sextet? hy
    rw [Option.ite_none_right_eq_some] at h
    obtain ⟨⟨rfl, whole⟩, h⟩ := h
    obtain ⟨rfl, -⟩ := Prod.mk.inj (Option.some.inj h)
    obtain ⟨p, q, two⟩ := bytesOf_of_last (n := w * 262144 + x * 4096 + y * 64) (by omega)
    rw [two]
    show encode [p, q] = _
    rw [← Nat.add_zero (_ + y * 64)] at two
    rw [encode_pair, triple_of_sextets lw lx ly (by omega) two]
    rfl
  · next w x hw hx _ _ =>
    obtain ⟨lw, rfl⟩ := eq_letter_of_sextet? hw
    obtain ⟨lx, rfl⟩ := eq_letter_of_sextet? hx
    rw [Option.ite_none_right_eq_some] at h
    obtain ⟨⟨rfl, rfl, whole⟩, h⟩ := h
    obtain ⟨rfl, -⟩ := Prod.mk.inj (Option.some.inj h)
    obtain ⟨p, one⟩ := bytesOf_of_last_two (n := w * 262144 + x * 4096) (by omega)
    rw [one]
    show encode [p] = _
    rw [← Nat.add_zero (_ + x * 4096), ← Nat.zero_mul 64, ← Nat.add_zero (_ + 0 * 64)] at one
    rw [encode_single, triple_of_sextets lw lx (by omega) (by omega) one]
    rfl
  · cases h

end

theorem eq_encode_of_decodeOnto {text : List Char} {seen bytes : Bytes}
    (h : decodeOnto seen text = some bytes) :
    ∃ more, bytes = more.reverse ++ seen ∧ text = encode more := by
  fun_induction decodeOnto seen text with
  | case1 seen a b c d last group =>
    obtain rfl := Option.some.inj h
    exact ⟨last, rfl, (encode_of_group? group).symm⟩
  | case2 => cases h
  | case3 seen a b c d rest front group ih =>
    obtain ⟨more, rfl, rfl⟩ := ih h
    obtain ⟨x, y, z, rfl, letters⟩ := triple_of_group? group
    refine ⟨x :: y :: z :: more, by simp, ?_⟩
    rw [encode_cons, letters]
    rfl
  | case4 => cases h
  | case5 seen =>
    obtain rfl := Option.some.inj h
    exact ⟨[], rfl, rfl⟩
  | case6 => cases h

/-- A text stands for a payload only if it is what the payload is written as. -/
theorem decode?_eq_some_iff {text : List Char} {bytes : Bytes} :
    decode? text = some bytes ↔ text = encode bytes := by
  constructor
  · intro h
    obtain ⟨out, read, rfl⟩ := Option.map_eq_some_iff.mp h
    obtain ⟨more, rfl, eq⟩ := eq_encode_of_decodeOnto read
    rw [eq, List.append_nil, List.reverse_reverse]
  · rintro rfl
    exact decode?_encode bytes

/-! ## Letters -/

/-- A letter or a pad. -/
def IsLetter (c : Char) : Prop := c = '=' ∨ ∃ n < 64, c = letter n

theorem isLetter_of_mem_triple {a b c : UInt8} {d : Char} (h : d ∈ triple a b c) : IsLetter d := by
  have ha := a.toNat_lt
  have hb := b.toNat_lt
  have hc := c.toNat_lt
  simp only [triple, List.mem_cons, List.not_mem_nil, or_false] at h
  rcases h with rfl | rfl | rfl | rfl
  · exact .inr ⟨_, by omega, rfl⟩
  · exact .inr ⟨_, by omega, rfl⟩
  · exact .inr ⟨_, by omega, rfl⟩
  · exact .inr ⟨_, by omega, rfl⟩

/-- Only letters and pads are written. -/
theorem isLetter_of_mem_encode {d : Char} : ∀ {bytes : Bytes}, d ∈ encode bytes → IsLetter d
  | [], h => by cases h
  | [a], h => by
    rw [encode_single] at h
    rcases List.mem_append.mp h with h | h
    · exact isLetter_of_mem_triple (List.mem_of_mem_take h)
    · exact .inl (by simpa using h)
  | [a, b], h => by
    rw [encode_pair] at h
    rcases List.mem_append.mp h with h | h
    · exact isLetter_of_mem_triple (List.mem_of_mem_take h)
    · exact .inl (by simpa using h)
  | a :: b :: c :: rest, h => by
    rw [encode_cons] at h
    rcases List.mem_append.mp h with h | h
    · exact isLetter_of_mem_triple h
    · exact isLetter_of_mem_encode h

end MarketStream.Base64
