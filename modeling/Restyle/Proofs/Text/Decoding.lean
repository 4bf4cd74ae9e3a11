/-
Restyle.Proofs.Text.Decoding — UTF-8 decoding is exact.

What counts as the encoding of a character is `String.utf8EncodeChar`,
the one form that UTF-8 gives to a scalar value. The decoder takes the
bytes apart by arithmetic; `units_eq` puts the encoding in the same terms,
and from there on both directions are arithmetic: what is decoded is
encoded as the bytes that stand there (`exists_units_of_decode?`), and what
is encoded there is decoded (`decode?_of_units`).

`Text.Spells` carries this over to texts. A walk over the encoding of a
string is then an induction on its characters (`charsFrom_of_drop`).
-/
import Restyle.Proofs.Scanner.Coverage

namespace Restyle

namespace Utf8

/-! ## 1. The encoding of a character -/

/-- A character as a decoder gives it. -/
def decoded (c : Char) : Decoded := ⟨c.toNat, c.utf8Size⟩

/-- The bytes that encode a character, as numbers. -/
def units (c : Char) : List Nat := (String.utf8EncodeChar c).map UInt8.toNat

theorem length_units (c : Char) : (units c).length = c.utf8Size := by simp [units]

theorem toNat_valid (c : Char) :
    c.toNat < 0xD800 ∨ 0xDFFF < c.toNat ∧ c.toNat < 0x110000 := c.valid

theorem exists_toNat_eq (code : Nat)
    (h : code < 0xD800 ∨ 0xDFFF < code ∧ code < 0x110000) : ∃ c : Char, c.toNat = code :=
  ⟨Char.ofNatAux code h, rfl⟩

/-- The encoding by the four ranges of code points. -/
theorem units_eq (c : Char) : units c =
    if c.toNat < 0x80 then [c.toNat]
    else if c.toNat < 0x800 then [0xC0 + c.toNat / 0x40, 0x80 + c.toNat % 0x40]
    else if c.toNat < 0x10000 then
      [0xE0 + c.toNat / 0x1000, 0x80 + c.toNat / 0x40 % 0x40, 0x80 + c.toNat % 0x40]
    else
      [0xF0 + c.toNat / 0x40000, 0x80 + c.toNat / 0x1000 % 0x40, 0x80 + c.toNat / 0x40 % 0x40,
        0x80 + c.toNat % 0x40] := by
  have hvalid := toNat_valid c
  rw [units, String.utf8EncodeChar]
  simp only [Char.toNat_val]
  generalize c.toNat = n at hvalid
  simp only [Nat.le_iff_lt_add_one, Nat.reduceAdd]
  repeat' split
  all_goals simp only [List.map_cons, List.map_nil, UInt8.toNat_ofNat', List.cons.injEq, and_true]
  all_goals omega

/-! ## 2. The decoder -/

theorem payload_eq (b : Nat) : payload b = b - 0x80 := rfl

@[simp] theorem payload_add (n : Nat) : payload (0x80 + n) = n := by
  rw [payload_eq, Nat.add_sub_cancel_left]

@[simp] theorem isContinuation_add_mod (n : Nat) : isContinuation (0x80 + n % 0x40) = true := by
  simp only [isContinuation, Bool.and_eq_true, decide_eq_true_eq]
  omega

/-- A continuation byte is told by its payload. -/
theorem eq_add_payload {b : Nat} (h : isContinuation b = true) :
    b = 0x80 + payload b ∧ payload b < 0x40 := by
  simp only [isContinuation, Bool.and_eq_true, decide_eq_true_eq] at h
  rw [payload_eq]
  omega

/-- A character of several bytes starts with a lead byte. -/
theorem le_of_decode? {b₀ b₁ b₂ b₃ : Nat} {d : Decoded} (h : decode? b₀ b₁ b₂ b₃ = some d) :
    0xC2 ≤ b₀ := by
  refine Nat.le_of_not_lt fun hlt => ?_
  rw [decode?, if_neg (by omega), if_neg (by omega), if_neg (by omega)] at h
  cases h

theorem decode₂_eq_some {b₀ b₁ : Nat} (h : 0xC2 ≤ b₀) (h' : b₀ ≤ 0xDF) {d : Decoded}
    (hd : decode₂ b₀ b₁ = some d) : ∃ c : Char, d = ⟨c.toNat, 2⟩ ∧ units c = [b₀, b₁] := by
  simp only [decode₂, Option.ite_none_right_eq_some, Option.some.injEq] at hd
  obtain ⟨h₁, rfl⟩ := hd
  have h₁ := eq_add_payload h₁
  obtain ⟨c, hc⟩ := exists_toNat_eq ((b₀ - 0xC0) * 0x40 + payload b₁) (by omega)
  refine ⟨c, by rw [hc], ?_⟩
  rw [units_eq, hc, if_neg (by omega), if_pos (by omega)]
  simp only [List.cons.injEq, and_true]
  omega

theorem decode₃_eq_some {b₀ b₁ b₂ : Nat} (h : 0xE0 ≤ b₀) (h' : b₀ ≤ 0xEF) {d : Decoded}
    (hd : decode₃ b₀ b₁ b₂ = some d) :
    ∃ c : Char, d = ⟨c.toNat, 3⟩ ∧ units c = [b₀, b₁, b₂] := by
  simp only [decode₃, Option.ite_none_right_eq_some, Option.ite_none_left_eq_some,
    Option.some.injEq, Bool.and_eq_true] at hd
  obtain ⟨⟨h₁, h₂⟩, hcode, rfl⟩ := hd
  have h₁ := eq_add_payload h₁
  have h₂ := eq_add_payload h₂
  obtain ⟨c, hc⟩ := exists_toNat_eq
    ((b₀ - 0xE0) * 0x1000 + payload b₁ * 0x40 + payload b₂) (by omega)
  refine ⟨c, by rw [hc], ?_⟩
  rw [units_eq, hc, if_neg (by omega), if_neg (by omega), if_pos (by omega)]
  simp only [List.cons.injEq, and_true]
  omega

theorem decode₄_eq_some {b₀ b₁ b₂ b₃ : Nat} (h : 0xF0 ≤ b₀) {d : Decoded}
    (hd : decode₄ b₀ b₁ b₂ b₃ = some d) :
    ∃ c : Char, d = ⟨c.toNat, 4⟩ ∧ units c = [b₀, b₁, b₂, b₃] := by
  simp only [decode₄, Option.ite_none_right_eq_some, Option.ite_none_left_eq_some,
    Option.some.injEq, Bool.and_eq_true] at hd
  obtain ⟨⟨⟨h₁, h₂⟩, h₃⟩, hcode, rfl⟩ := hd
  have h₁ := eq_add_payload h₁
  have h₂ := eq_add_payload h₂
  have h₃ := eq_add_payload h₃
  obtain ⟨c, hc⟩ := exists_toNat_eq ((b₀ - 0xF0) * 0x40000 + payload b₁ * 0x1000
    + payload b₂ * 0x40 + payload b₃) (by omega)
  refine ⟨c, by rw [hc], ?_⟩
  rw [units_eq, hc, if_neg (by omega), if_neg (by omega), if_neg (by omega)]
  simp only [List.cons.injEq, and_true]
  omega

/-- What is decoded is a character whose encoding stands there. -/
theorem exists_units_of_decode? {b₀ b₁ b₂ b₃ : Nat} {d : Decoded}
    (h : decode? b₀ b₁ b₂ b₃ = some d) :
    ∃ c : Char, d = decoded c ∧ units c <+: [b₀, b₁, b₂, b₃] := by
  have hwidth {c : Char} {n : Nat} {bytes : List Nat} (hc : units c = bytes)
      (hn : bytes.length = n) (hp : bytes <+: [b₀, b₁, b₂, b₃]) (hd : d = ⟨c.toNat, n⟩) :
      ∃ c : Char, d = decoded c ∧ units c <+: [b₀, b₁, b₂, b₃] :=
    ⟨c, by rw [decoded, ← length_units, hc, hn]; exact hd, by rw [hc]; exact hp⟩
  rw [decode?] at h
  split at h
  · rename_i hlead
    obtain ⟨c, hd, hc⟩ := decode₂_eq_some hlead.1 hlead.2 h
    exact hwidth hc rfl ⟨[b₂, b₃], rfl⟩ hd
  · split at h
    · rename_i hlead
      obtain ⟨c, hd, hc⟩ := decode₃_eq_some hlead.1 hlead.2 h
      exact hwidth hc rfl ⟨[b₃], rfl⟩ hd
    · split at h
      · rename_i hlead
        obtain ⟨c, hd, hc⟩ := decode₄_eq_some hlead.1 h
        exact hwidth hc rfl ⟨[], rfl⟩ hd
      · cases h

theorem decode?_two {n : Nat} (h : 0x80 ≤ n) (h' : n < 0x800) (b₂ b₃ : Nat) :
    decode? (0xC0 + n / 0x40) (0x80 + n % 0x40) b₂ b₃ = some ⟨n, 2⟩ := by
  have hcode : (0xC0 + n / 0x40 - 0xC0) * 0x40 + n % 0x40 = n := by omega
  rw [decode?, if_pos (by omega), decode₂, if_pos (by simp), payload_add, hcode]

theorem decode?_three {n : Nat} (h : 0x800 ≤ n) (h' : n < 0xD800 ∨ 0xDFFF < n ∧ n < 0x10000)
    (b₃ : Nat) : decode? (0xE0 + n / 0x1000) (0x80 + n / 0x40 % 0x40) (0x80 + n % 0x40) b₃
      = some ⟨n, 3⟩ := by
  have hcode : (0xE0 + n / 0x1000 - 0xE0) * 0x1000 + n / 0x40 % 0x40 * 0x40 + n % 0x40 = n := by
    omega
  rw [decode?, if_neg (by omega), if_pos (by omega), decode₃, if_pos (by simp), payload_add,
    payload_add, hcode]
  exact if_neg (by omega)

theorem decode?_four {n : Nat} (h : 0x10000 ≤ n) (h' : n < 0x110000) :
    decode? (0xF0 + n / 0x40000) (0x80 + n / 0x1000 % 0x40) (0x80 + n / 0x40 % 0x40)
      (0x80 + n % 0x40) = some ⟨n, 4⟩ := by
  have hcode : (0xF0 + n / 0x40000 - 0xF0) * 0x40000 + n / 0x1000 % 0x40 * 0x1000
      + n / 0x40 % 0x40 * 0x40 + n % 0x40 = n := by omega
  rw [decode?, if_neg (by omega), if_neg (by omega), if_pos (by omega), decode₄, if_pos (by simp),
    payload_add, payload_add, payload_add, hcode]
  exact if_neg (by omega)

/-- Where the encoding of a character outside ASCII stands, that character is decoded. -/
theorem decode?_of_units {c : Char} (hc : 0x80 ≤ c.toNat) {b₀ b₁ b₂ b₃ : Nat}
    (h : units c <+: [b₀, b₁, b₂, b₃]) : decode? b₀ b₁ b₂ b₃ = some (decoded c) := by
  have hvalid := toNat_valid c
  rw [decoded, ← length_units]
  rw [units_eq, if_neg (by omega)] at h ⊢
  split at h
  · rename_i htwo
    simp only [List.cons_prefix_cons, List.nil_prefix, and_true] at h
    obtain ⟨rfl, rfl⟩ := h
    rw [if_pos htwo]
    exact decode?_two hc htwo b₂ b₃
  · rename_i htwo
    rw [if_neg htwo]
    split at h
    · rename_i hthree
      simp only [List.cons_prefix_cons, List.nil_prefix, and_true] at h
      obtain ⟨rfl, rfl, rfl⟩ := h
      rw [if_pos hthree]
      exact decode?_three (by omega) (by omega) b₃
    · rename_i hthree
      simp only [List.cons_prefix_cons, List.nil_prefix, and_true] at h
      obtain ⟨rfl, rfl, rfl, rfl⟩ := h
      rw [if_neg hthree]
      exact decode?_four (by omega) (by omega)

end Utf8

namespace Text

variable (t : Text)

/-! ## 3. The characters of a text -/

/-- The encoding of `c` stands at `p`. -/
def Spells (p : Nat) (c : Char) : Prop :=
  t.bytesIn p (p + c.utf8Size) = String.utf8EncodeChar c

theorem bytesIn_add (p n : Nat) : t.bytesIn p (p + n) = (t.bytes.toList.drop p).take n := by
  simp [bytesIn, List.extract]

/-- Bytes inside the text are read by `byteAt`. -/
theorem map_toNat_bytesIn {p n : Nat} (h : p + n ≤ t.size) :
    (t.bytesIn p (p + n)).map UInt8.toNat = (List.range n).map fun i => t.byteAt (p + i) := by
  rw [size] at h
  rw [bytesIn_add]
  apply List.ext_getElem
  · simp
    omega
  · intro i hi hi'
    simp at hi
    simp [byteAt, Array.getD, show p + i < t.bytes.size by omega]

variable {t}

/-- A character stands where its bytes can be read one by one. -/
theorem spells_iff {p : Nat} {c : Char} (h : p + c.utf8Size ≤ t.size) :
    t.Spells p c ↔ Utf8.units c = (List.range c.utf8Size).map fun i => t.byteAt (p + i) := by
  rw [Utf8.units, ← t.map_toNat_bytesIn h]
  constructor
  · intro hs
    rw [hs]
  · intro hs
    exact ((List.map_inj_right fun _ _ => UInt8.toNat_inj.1).1 hs).symm

theorem Spells.add_size_le {p : Nat} {c : Char} (h : t.Spells p c) :
    p + c.utf8Size ≤ t.size := by
  have hlength := congrArg List.length h
  have hpos := c.utf8Size_pos
  rw [bytesIn_add, String.length_utf8EncodeChar] at hlength
  simp only [List.length_take, List.length_drop, Array.length_toList] at hlength
  rw [size]
  omega

/-- The bytes of a character that stands at `p` are the first of the four a decoder looks at. -/
theorem Spells.units_prefix {p : Nat} {c : Char} (h : t.Spells p c) :
    Utf8.units c <+: [t.byteAt p, t.byteAt (p + 1), t.byteAt (p + 2), t.byteAt (p + 3)] := by
  rw [(spells_iff h.add_size_le).1 h, ← Nat.min_eq_left c.utf8Size_le_four, ← List.take_range,
    List.map_take]
  exact List.take_prefix ..

/-- A character that stands in a UTF-8 text is what is read there. -/
theorem Spells.charAt_eq {p : Nat} {c : Char} (h : t.Spells p c) (he : t.encoding = .utf8) :
    t.charAt p = Utf8.decoded c := by
  have hprefix := h.units_prefix
  by_cases hascii : c.toNat < 0x80
  · rw [Utf8.units_eq, if_pos hascii, List.cons_prefix_cons] at hprefix
    rw [t.charAt_of_byteAt_lt (by omega), Utf8.decoded, ← Utf8.length_units, Utf8.units_eq,
      if_pos hascii, hprefix.1]
    rfl
  · have hdecode := Utf8.decode?_of_units (by omega) hprefix
    have hlead := Utf8.le_of_decode? hdecode
    have hlt := t.lt_size_of_byteAt (p := p) (by omega)
    rw [charAt, if_neg (by omega), if_neg (by rw [he]; simp; omega), hdecode, Option.getD_some]

variable (t) in
/-- A character is a byte by itself, or one outside ASCII whose encoding stands there. -/
theorem charAt_eq_byte_or_spells (p : Nat) :
    t.charAt p = ⟨t.byteAt p, 1⟩
      ∨ ∃ c : Char, 1 < c.utf8Size ∧ t.charAt p = Utf8.decoded c ∧ t.Spells p c := by
  rcases t.charAt_cases p with hbyte | ⟨hlead, hdecode⟩
  · exact Or.inl hbyte
  · obtain ⟨c, hc, hprefix⟩ := Utf8.exists_units_of_decode? hdecode
    have hwidth := (Utf8.decode?_eq_some hdecode).2.1
    have hle := t.add_width_le_size (t.lt_size_of_byteAt (p := p) (by omega))
    rw [hc] at hwidth hle
    refine Or.inr ⟨c, hwidth, hc, (spells_iff hle).2 ?_⟩
    rw [List.prefix_iff_eq_take.1 hprefix, Utf8.length_units,
      show [t.byteAt p, t.byteAt (p + 1), t.byteAt (p + 2), t.byteAt (p + 3)]
        = (List.range 4).map fun i => t.byteAt (p + i) from rfl,
      ← List.map_take, List.take_range, Nat.min_eq_left c.utf8Size_le_four]

/-! ## 4. Walks over an encoded string -/

/-- Where the encodings of several characters stand, the first of them stands, and the
others stand behind it. -/
theorem spells_of_drop {p : Nat} {c : Char} {rest : List UInt8}
    (h : t.bytes.toList.drop p = String.utf8EncodeChar c ++ rest) :
    t.Spells p c ∧ t.bytes.toList.drop (p + c.utf8Size) = rest := by
  have hlength := String.length_utf8EncodeChar c
  constructor
  · rw [Spells, bytesIn_add, h, List.take_left' hlength]
  · rw [← List.drop_drop, h, List.drop_left' hlength]

theorem charsFrom_of_drop (he : t.encoding = .utf8) : ∀ (cs : List Char) {p fuel : Nat},
    t.bytes.toList.drop p = cs.flatMap String.utf8EncodeChar → t.size ≤ p + fuel →
    (t.charsFrom p fuel).map Prod.snd = cs.map Utf8.decoded
  | [], p, fuel, h, _ => by
    have hend : t.size ≤ p := by simpa [size] using h
    cases fuel with
    | zero => rfl
    | succ fuel => rw [charsFrom, if_pos hend]; rfl
  | c :: cs, p, fuel, h, hfuel => by
    obtain ⟨hspells, hrest⟩ := spells_of_drop h
    have hpos := c.utf8Size_pos
    have hle := hspells.add_size_le
    obtain ⟨fuel, rfl⟩ := Nat.exists_eq_succ_of_ne_zero (n := fuel) (by omega)
    have hfuel' : t.size ≤ p + c.utf8Size + fuel := by omega
    rw [charsFrom, if_neg (by omega), hspells.charAt_eq he, List.map_cons, List.map_cons]
    exact congrArg (Utf8.decoded c :: ·) (charsFrom_of_drop he cs hrest hfuel')

theorem advance_of_drop (he : t.encoding = .utf8) : ∀ (cs : List Char) {p : Nat},
    t.bytes.toList.drop p = cs.flatMap String.utf8EncodeChar → p ≤ t.size →
    t.advance cs.length p = t.size
  | [], p, h, hp => by
    have hend : t.size ≤ p := by simpa [size] using h
    exact Nat.le_antisymm hp hend
  | c :: cs, p, h, _ => by
    obtain ⟨hspells, hrest⟩ := spells_of_drop h
    have hpos := c.utf8Size_pos
    have hle := hspells.add_size_le
    rw [List.length_cons, advance, if_neg (by omega), hspells.charAt_eq he]
    exact advance_of_drop he cs hrest hle

/-- The bytes of a string are the encodings of its characters. -/
theorem bytes_ofString (s : String) :
    (ofString s).bytes.toList = s.toList.flatMap String.utf8EncodeChar := by
  have hbytes : s.toUTF8 = s.toList.utf8Encode := by simp
  rw [ofString, ofBytes, Utf8.ofText, hbytes, List.utf8Encode, List.data_toByteArray]

/-! ## 5. Decoding is exact -/

/-- A walk over the encoding of a string yields its characters and stops at the end of the
text. At any position of any text, what is read is the byte there, or else a character of
more than one byte whose encoding stands there; in UTF-8 no character that stands there is
missed; and nothing that is read reaches past the end. -/
theorem decoding_exact (s : String) (t : Text) (p : Nat) :
    (ofString s).chars.map Prod.snd = s.toList.map Utf8.decoded
    ∧ (ofString s).advance s.toList.length 0 = (ofString s).size
    ∧ (t.charAt p = ⟨t.byteAt p, 1⟩
      ∨ ∃ c : Char, 1 < c.utf8Size ∧ t.charAt p = Utf8.decoded c ∧ t.Spells p c)
    ∧ (t.encoding = .utf8 → ∀ c : Char, t.Spells p c → t.charAt p = Utf8.decoded c)
    ∧ (p < t.size → p + (t.charAt p).width ≤ t.size) := by
  have hdrop : (ofString s).bytes.toList.drop 0 = s.toList.flatMap String.utf8EncodeChar :=
    bytes_ofString s
  exact ⟨charsFrom_of_drop rfl _ hdrop (by omega), advance_of_drop rfl _ hdrop (Nat.zero_le _),
    t.charAt_eq_byte_or_spells p, fun he _ h => h.charAt_eq he, t.add_width_le_size⟩

theorem decoding_exact_euro :
    (ofBytes #[0xE2, 0x82, 0xAC] .utf8).charAt 0 = Utf8.decoded '\u20AC'
    ∧ 0 + ((ofBytes #[0xE2, 0x82, 0xAC] .utf8).charAt 0).width ≤ 3 := by
  obtain ⟨-, -, -, hspells, hle⟩ := decoding_exact "" (ofBytes #[0xE2, 0x82, 0xAC] .utf8) 0
  exact ⟨hspells rfl '\u20AC' rfl, hle (by decide)⟩

/-- The same character cut short is its first byte. -/
example : (ofBytes #[0xE2, 0x82] .utf8).charAt 0 = ⟨0xE2, 1⟩ := by decide

end Text

end Restyle
