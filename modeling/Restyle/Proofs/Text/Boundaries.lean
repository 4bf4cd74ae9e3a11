/-
Restyle.Proofs.Text.Boundaries — where the characters of a UTF-8 text
begin and end.

The encoding of characters shows as those characters (`Utf8.lossy_flatMap`).
A position is a boundary of a text that encodes `cs` if it cuts `cs` in two
(`Cuts`). Inside the text these are the positions where no continuation
byte stands (`Encodes.cuts_iff`), and the text between two of them shows as
the characters between the cuts (`Encodes.slice_eq`). Moving on by one
character leads from one boundary to the next (`Encodes.cuts_add_width`).
-/
import Restyle.Proofs.Text.Decoding

namespace Restyle

namespace Utf8

/-! ## 1. Encoded characters show as they are -/

theorem secondFits_two {n : Nat} (h : 0x80 ≤ n) (h' : n < 0x800) :
    secondFits (0xC0 + n / 0x40) (0x80 + n % 0x40) = true := by
  rw [secondFits, if_neg (by omega), if_neg (by omega), if_neg (by omega), if_neg (by omega),
    isContinuation_add_mod, Bool.and_true, Bool.and_eq_true, decide_eq_true_eq, decide_eq_true_eq]
  omega

/-- Neither overlong forms nor surrogates are encoded. -/
theorem secondFits_three {n : Nat} (h : 0x800 ≤ n)
    (h' : n < 0xD800 ∨ 0xDFFF < n ∧ n < 0x10000) :
    secondFits (0xE0 + n / 0x1000) (0x80 + n / 0x40 % 0x40) = true := by
  rw [secondFits, if_neg (show ¬ 0xE0 + n / 0x1000 = 0xF0 by omega),
    if_neg (show ¬ 0xE0 + n / 0x1000 = 0xF4 by omega), isContinuation_add_mod]
  split
  · simp
    omega
  · split <;> simp <;> omega

/-- Neither overlong forms nor codes above U+10FFFF are encoded. -/
theorem secondFits_four {n : Nat} (h : 0x10000 ≤ n) (h' : n < 0x110000) :
    secondFits (0xF0 + n / 0x40000) (0x80 + n / 0x1000 % 0x40) = true := by
  rw [secondFits, if_neg (show ¬ 0xF0 + n / 0x40000 = 0xE0 by omega),
    if_neg (show ¬ 0xF0 + n / 0x40000 = 0xED by omega), isContinuation_add_mod]
  split
  · simp
    omega
  · split <;> simp <;> omega

/-- A byte string that starts with an encoded character. -/
theorem lossy_append_encode (c : Char) (rest : List UInt8) :
    lossy (String.utf8EncodeChar c ++ rest) = c :: lossy rest := by
  have hvalid := toNat_valid c
  have hunits : (String.utf8EncodeChar c).map UInt8.toNat = units c := rfl
  have hchar {n : Nat} (hn : n = c.toNat) : Char.ofNat n = c := by rw [hn, Char.ofNat_toNat]
  rw [units_eq] at hunits
  generalize String.utf8EncodeChar c = bytes at hunits
  split at hunits
  · rename_i hone
    simp only [List.map_eq_cons_iff, List.map_eq_nil_iff] at hunits
    obtain ⟨b₀, _, rfl, h₀, rfl⟩ := hunits
    rw [List.singleton_append, lossy.eq_def]
    simp only [h₀, if_pos hone, Char.ofNat_toNat]
  · rename_i hone
    split at hunits
    · rename_i htwo
      simp only [List.map_eq_cons_iff, List.map_eq_nil_iff] at hunits
      obtain ⟨b₀, _, rfl, h₀, b₁, _, rfl, h₁, rfl⟩ := hunits
      have hfits := secondFits_two (Nat.le_of_not_lt hone) htwo
      simp only [List.cons_append, List.nil_append]
      rw [lossy.eq_def]
      simp only [h₀, h₁, hfits, payload_add]
      rw [if_neg (by omega), if_neg (by decide), if_pos (by omega), hchar (by omega)]
    · rename_i htwo
      split at hunits
      · rename_i hthree
        simp only [List.map_eq_cons_iff, List.map_eq_nil_iff] at hunits
        obtain ⟨b₀, _, rfl, h₀, b₁, _, rfl, h₁, b₂, _, rfl, h₂, rfl⟩ := hunits
        have hfits := secondFits_three (Nat.le_of_not_lt htwo) (by omega)
        simp only [List.cons_append, List.nil_append]
        rw [lossy.eq_def]
        simp only [h₀, h₁, h₂, hfits, payload_add, isContinuation_add_mod]
        rw [if_neg (by omega), if_neg (by decide), if_neg (by omega), if_neg (by decide),
          if_pos (by omega), hchar (by omega)]
      · rename_i hthree
        simp only [List.map_eq_cons_iff, List.map_eq_nil_iff] at hunits
        obtain ⟨b₀, _, rfl, h₀, b₁, _, rfl, h₁, b₂, _, rfl, h₂, b₃, _, rfl, h₃, rfl⟩ := hunits
        have hfits := secondFits_four (n := c.toNat) (by omega) (by omega)
        simp only [List.cons_append, List.nil_append]
        rw [lossy.eq_def]
        simp only [h₀, h₁, h₂, h₃, hfits, payload_add, isContinuation_add_mod]
        rw [if_neg (by omega), if_neg (by decide), if_neg (by omega), if_neg (by decide),
          if_neg (by omega), if_neg (by decide), hchar (by omega)]

theorem lossy_flatMap (cs : List Char) : lossy (cs.flatMap String.utf8EncodeChar) = cs := by
  induction cs with
  | nil => rw [List.flatMap_nil, lossy]
  | cons c cs ih => rw [List.flatMap_cons, lossy_append_encode, ih]

/-- How many bytes encode characters. -/
def sizeOf (cs : List Char) : Nat := (cs.flatMap String.utf8EncodeChar).length

@[simp] theorem sizeOf_nil : sizeOf [] = 0 := rfl

@[simp] theorem sizeOf_append (xs ys : List Char) : sizeOf (xs ++ ys) = sizeOf xs + sizeOf ys := by
  simp [sizeOf]

@[simp] theorem sizeOf_cons (c : Char) (cs : List Char) :
    sizeOf (c :: cs) = c.utf8Size + sizeOf cs := by
  simp [sizeOf]

theorem utf8ByteSize_eq (s : String) : s.utf8ByteSize = sizeOf s.toList := by
  rw [← String.size_toByteArray, sizeOf, ← Text.bytes_ofString, Array.length_toList]
  rfl

theorem sizeOf_le_of_prefix {xs ys : List Char} (h : xs <+: ys) : sizeOf xs ≤ sizeOf ys := by
  obtain ⟨zs, rfl⟩ := h
  rw [sizeOf_append]
  exact Nat.le_add_right ..

/-- Of two starts of one list, the one that takes fewer bytes is a start of the other. -/
theorem prefix_of_sizeOf_le {xs ys cs : List Char} (hx : xs <+: cs) (hy : ys <+: cs)
    (h : sizeOf xs ≤ sizeOf ys) : xs <+: ys := by
  rcases List.prefix_or_prefix_of_prefix hx hy with hxy | ⟨zs, rfl⟩
  · exact hxy
  · cases zs with
    | nil => simp
    | cons c zs =>
      have hpos := c.utf8Size_pos
      rw [sizeOf_append, sizeOf_cons] at h
      omega

/-- The first byte of a character does not continue one. -/
theorem isContinuation_head_units (c : Char) : ∀ b ∈ (units c).head?, isContinuation b = false := by
  have hvalid := toNat_valid c
  intro b hb
  rw [← Bool.not_eq_true, isContinuation, Bool.and_eq_true, decide_eq_true_eq, decide_eq_true_eq]
  rw [units_eq] at hb
  split at hb
  · obtain rfl : c.toNat = b := by simpa using hb
    omega
  · split at hb
    · obtain rfl : 0xC0 + c.toNat / 0x40 = b := by simpa using hb
      omega
    · split at hb
      · obtain rfl : 0xE0 + c.toNat / 0x1000 = b := by simpa using hb
        omega
      · obtain rfl : 0xF0 + c.toNat / 0x40000 = b := by simpa using hb
        omega

end Utf8

namespace Text

/-! ## 2. Boundaries -/

/-- The text is the UTF-8 encoding of `cs`. -/
structure Encodes (t : Text) (cs : List Char) : Prop where
  encoding : t.encoding = .utf8
  bytes : t.bytes.toList = cs.flatMap String.utf8EncodeChar

theorem encodes_ofString (s : String) : (ofString s).Encodes s.toList := ⟨rfl, bytes_ofString s⟩

/-- The position cuts the encoding of `cs` between two characters, or at an end. -/
def Cuts (cs : List Char) (p : Nat) : Prop := ∃ xs ys, cs = xs ++ ys ∧ Utf8.sizeOf xs = p

variable {t : Text} {cs xs ys zs : List Char} {c : Char} {p : Nat}

theorem cuts_iff_prefix : Cuts cs p ↔ ∃ xs, xs <+: cs ∧ Utf8.sizeOf xs = p := by
  constructor
  · rintro ⟨xs, ys, rfl, hp⟩
    exact ⟨xs, List.prefix_append xs ys, hp⟩
  · rintro ⟨xs, ⟨ys, rfl⟩, hp⟩
    exact ⟨xs, ys, rfl, hp⟩

theorem cuts_append (xs ys : List Char) : Cuts (xs ++ ys) (Utf8.sizeOf xs) := ⟨xs, ys, rfl, rfl⟩

namespace Encodes

theorem size_eq (h : t.Encodes cs) : t.size = Utf8.sizeOf cs := by
  rw [size, ← Array.length_toList, h.bytes, Utf8.sizeOf]

theorem cuts_size (h : t.Encodes cs) : Cuts cs t.size := ⟨cs, [], by simp, h.size_eq.symm⟩

theorem drop_eq (h : t.Encodes (xs ++ ys)) :
    t.bytes.toList.drop (Utf8.sizeOf xs) = ys.flatMap String.utf8EncodeChar := by
  rw [h.bytes, List.flatMap_append, Utf8.sizeOf, List.drop_left]

/-- What stands behind a cut is the character there. -/
theorem spells (h : t.Encodes (xs ++ c :: ys)) : t.Spells (Utf8.sizeOf xs) c :=
  (spells_of_drop (by rw [h.drop_eq, List.flatMap_cons])).1

theorem charAt_eq (h : t.Encodes (xs ++ c :: ys)) :
    t.charAt (Utf8.sizeOf xs) = Utf8.decoded c := h.spells.charAt_eq h.encoding

/-- The text between two cuts shows as the characters between them. -/
theorem slice_eq (h : t.Encodes (xs ++ (ys ++ zs))) :
    t.slice (Utf8.sizeOf xs) (Utf8.sizeOf xs + Utf8.sizeOf ys) = String.ofList ys := by
  rw [slice, Utf8.toDisplay, bytesIn_add, h.drop_eq, List.flatMap_append, Utf8.sizeOf.eq_1 ys,
    List.take_left, Utf8.lossy_flatMap]

/-- From one boundary inside the text a character leads to the next. -/
theorem cuts_add_width (h : t.Encodes cs) (hp : Cuts cs p) (hlt : p < t.size) :
    Cuts cs (p + (t.charAt p).width) := by
  obtain ⟨xs, ys, rfl, rfl⟩ := hp
  cases ys with
  | nil =>
    rw [h.size_eq, List.append_nil] at hlt
    omega
  | cons c ys =>
    refine ⟨xs ++ [c], ys, by simp, ?_⟩
    rw [h.charAt_eq]
    simp [Utf8.decoded]

/-- No continuation byte stands at a boundary. -/
theorem isContinuation_of_cuts (h : t.Encodes cs) (hp : Cuts cs p) :
    Utf8.isContinuation (t.byteAt p) = false := by
  obtain ⟨xs, ys, rfl, rfl⟩ := hp
  cases ys with
  | nil =>
    rw [List.append_nil] at h
    rw [t.byteAt_eq_zero (Nat.le_of_eq h.size_eq)]
    rfl
  | cons c ys =>
    obtain ⟨rest, hrest⟩ := h.spells.units_prefix
    apply Utf8.isContinuation_head_units c
    cases hunits : Utf8.units c with
    | nil =>
      have hpos := c.utf8Size_pos
      rw [← Utf8.length_units, hunits] at hpos
      cases hpos
    | cons b units =>
      rw [hunits, List.cons_append, List.cons.injEq] at hrest
      exact congrArg some hrest.1

/-- Every byte belongs to a character. -/
theorem exists_char : ∀ {cs : List Char} {p : Nat}, p < Utf8.sizeOf cs →
    ∃ xs c ys, cs = xs ++ c :: ys ∧ Utf8.sizeOf xs ≤ p ∧ p < Utf8.sizeOf xs + c.utf8Size
  | c :: cs, p, hlt => by
    rcases Nat.lt_or_ge p c.utf8Size with hin | hbehind
    · exact ⟨[], c, cs, rfl, Nat.zero_le p, by simpa using hin⟩
    · rw [Utf8.sizeOf_cons] at hlt
      obtain ⟨xs, c', ys, rfl, hle, hlt'⟩ :=
        exists_char (show p - c.utf8Size < Utf8.sizeOf cs by omega)
      refine ⟨c :: xs, c', ys, rfl, ?_, ?_⟩ <;> rw [Utf8.sizeOf_cons] <;> omega

/-- The boundaries inside the text are where no continuation byte stands. -/
theorem cuts_iff (h : t.Encodes cs) (hlt : p < t.size) :
    Cuts cs p ↔ Utf8.isContinuation (t.byteAt p) = false := by
  refine ⟨h.isContinuation_of_cuts, fun hno => ?_⟩
  obtain ⟨xs, c, ys, rfl, hle, hin⟩ := exists_char (h.size_eq ▸ hlt)
  rcases Nat.lt_or_eq_of_le hle with hlt' | rfl
  · have hwidth : (t.charAt (Utf8.sizeOf xs)).width = c.utf8Size := by rw [h.charAt_eq]; rfl
    rw [t.isContinuation_of_inside hlt' (by omega)] at hno
    cases hno
  · exact cuts_append xs _

end Encodes

end Text

end Restyle
