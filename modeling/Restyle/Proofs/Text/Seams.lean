/-
Restyle.Proofs.Text.Seams — where bytes can be decoded in pieces.

An ASCII byte is a character by itself, whatever stands around it. So a
byte string cut in two decodes to what its parts decode to, if an ASCII
byte stands before or behind the cut (`Utf8.lossy_append`): what is cut
short before it would be so without the cut as well. The positions of a
text where that holds are its seams (`Text.Seam`), and a text cut at seams
shows as its parts do (`Text.slice_append`).
-/
import Restyle.Proofs.Text.LineRanges

namespace Restyle

/-! ## 1. Byte strings -/

namespace Utf8

theorem isContinuation_eq_false {b : Nat} (h : b < 128) : isContinuation b = false := by
  simp [isContinuation]
  omega

theorem secondFits_eq_false {lead second : Nat} (h : second < 128) :
    secondFits lead second = false := by
  rw [secondFits, isContinuation_eq_false h]
  repeat' split
  all_goals simp
  all_goals omega

theorem not_lt_of_isContinuation {b : Nat} (h : ¬(!isContinuation b) = true) : ¬b < 128 :=
  fun hlt => h (by rw [isContinuation_eq_false hlt]; rfl)

theorem not_lt_of_secondFits {lead second : Nat} (h : ¬(!secondFits lead second) = true) :
    ¬second < 128 := fun hlt => h (by rw [secondFits_eq_false hlt]; rfl)

/-- Where two byte strings meet, one of the bytes is ASCII. -/
def Apart (xs ys : List UInt8) : Prop :=
  ∀ x ∈ xs.getLast?, ∀ y ∈ ys.head?, x.toNat < 128 ∨ y.toNat < 128

theorem Apart.of_cons {x : UInt8} {xs ys : List UInt8} (h : Apart (x :: xs) ys) : Apart xs ys := by
  intro z hz
  cases xs with
  | nil => cases hz
  | cons x' xs => exact h z (by rwa [List.getLast?_cons_cons])

theorem Apart.head_lt {x : UInt8} {ys : List UInt8} (h : Apart [x] ys) (hx : ¬x.toNat < 128) :
    ∀ y ∈ ys.head?, y.toNat < 128 := fun y hy =>
  (h x rfl y hy).resolve_left hx

/-- Byte strings decode one by one. -/
theorem lossy_append {xs ys : List UInt8} (h : Apart xs ys) :
    lossy (xs ++ ys) = lossy xs ++ lossy ys := by
  -- a character cut short at the end of `xs` is not continued by the ASCII byte behind it
  fun_induction lossy xs with
  | case1 => rfl
  | case2 b₀ rest₀ h₀ ih =>
    rw [List.cons_append, lossy.eq_def]
    simp only [if_pos h₀, ih h.of_cons, List.cons_append]
  | case3 b₀ h₀ =>
    rw [List.cons_append, lossy.eq_def]
    cases ys with
    | nil => simp [h₀, lossy]
    | cons y ys => simp [h₀, secondFits_eq_false (h.head_lt h₀ y rfl)]
  | case4 b₀ h₀ b₁ rest₁ h₁ ih =>
    rw [List.cons_append, List.cons_append, lossy.eq_def]
    simp only [if_neg h₀, if_pos h₁]
    rw [← List.cons_append, ih h.of_cons, List.cons_append]
  | case5 b₀ h₀ b₁ rest₁ h₁ h₂ ih =>
    rw [List.cons_append, List.cons_append, lossy.eq_def]
    simp only [if_neg h₀, if_neg h₁, if_pos h₂, ih h.of_cons.of_cons, List.cons_append]
  | case6 b₀ h₀ b₁ h₁ h₂ =>
    rw [List.cons_append, List.cons_append, lossy.eq_def]
    cases ys with
    | nil => simp [h₀, h₁, h₂, lossy]
    | cons y ys =>
      have hy := isContinuation_eq_false (h.of_cons.head_lt (not_lt_of_secondFits h₁) y rfl)
      simp [h₀, h₁, h₂, hy]
  | case7 b₀ h₀ b₁ h₁ h₂ b₂ rest₂ h₃ ih =>
    rw [List.cons_append, List.cons_append, lossy.eq_def]
    simp only [if_neg h₀, if_neg h₁, if_neg h₂, List.cons_append, if_pos h₃]
    rw [← List.cons_append, ih h.of_cons.of_cons]
  | case8 b₀ h₀ b₁ h₁ h₂ b₂ rest₂ h₃ h₄ ih =>
    rw [List.cons_append, List.cons_append, lossy.eq_def]
    simp only [if_neg h₀, if_neg h₁, if_neg h₂, List.cons_append, if_neg h₃, if_pos h₄,
      ih h.of_cons.of_cons.of_cons]
  | case9 b₀ h₀ b₁ h₁ h₂ b₂ h₃ h₄ =>
    rw [List.cons_append, List.cons_append, lossy.eq_def]
    cases ys with
    | nil => simp [h₀, h₁, h₂, h₃, h₄, lossy]
    | cons y ys =>
      have hy := isContinuation_eq_false
        (h.of_cons.of_cons.head_lt (not_lt_of_isContinuation h₃) y rfl)
      simp [h₀, h₁, h₂, h₃, h₄, hy]
  | case10 b₀ h₀ b₁ h₁ h₂ b₂ h₃ h₄ b₃ rest₃ h₅ ih =>
    rw [List.cons_append, List.cons_append, lossy.eq_def]
    simp only [if_neg h₀, if_neg h₁, if_neg h₂, List.cons_append, if_neg h₃, if_neg h₄, if_pos h₅]
    rw [← List.cons_append, ih h.of_cons.of_cons.of_cons]
  | case11 b₀ h₀ b₁ h₁ h₂ b₂ h₃ h₄ b₃ rest₃ h₅ ih =>
    rw [List.cons_append, List.cons_append, lossy.eq_def]
    simp only [if_neg h₀, if_neg h₁, if_neg h₂, List.cons_append, if_neg h₃, if_neg h₄, if_neg h₅,
      ih h.of_cons.of_cons.of_cons.of_cons]

end Utf8

/-! ## 2. Texts -/

namespace Text

variable (t : Text)

/-- A position of the text that does not part two bytes outside ASCII. -/
def Seam (p : Nat) : Prop := p = 0 ∨ t.byteAt (p - 1) < 128 ∨ t.byteAt p < 128

variable {t} {p : Nat}

theorem seam_zero : t.Seam 0 := Or.inl rfl

theorem seam_of_lt (h : t.byteAt p < 128) : t.Seam p := Or.inr (Or.inr h)

theorem seam_succ (h : t.byteAt p < 128) : t.Seam (p + 1) := Or.inr (Or.inl h)

theorem seam_of_size_le (h : t.size ≤ p) : t.Seam p :=
  seam_of_lt (by rw [t.byteAt_eq_zero h]; decide)

theorem seam_min_size (h : t.Seam p) : t.Seam (min p t.size) := by
  rcases Nat.le_total p t.size with hle | hge
  · rwa [Nat.min_eq_left hle]
  · rw [Nat.min_eq_right hge]
    exact seam_of_size_le (Nat.le_refl _)

theorem le_byteAt_of_not_seam (h : ¬t.Seam p) : 0 < p ∧ 128 ≤ t.byteAt p := by
  rw [Seam, not_or, not_or] at h
  omega

theorem head?_bytesIn {a b : Nat} {x : UInt8} (h : x ∈ (t.bytesIn a b).head?) :
    t.byteAt a = x.toNat := by
  rw [bytesIn, List.head?_eq_getElem?, Array.getElem?_toList, Array.getElem?_extract] at h
  split at h
  · rw [byteAt, Array.getD_eq_getD_getElem?, show t.bytes[a]? = some x from h]
    rfl
  · cases h

theorem getLast?_bytesIn {a b : Nat} (hb : b ≤ t.size) {x : UInt8}
    (h : x ∈ (t.bytesIn a b).getLast?) : t.byteAt (b - 1) = x.toNat := by
  have hmin : min b t.bytes.size = b := Nat.min_eq_left hb
  rw [bytesIn, List.getLast?_eq_getElem?, Array.getElem?_toList, Array.getElem?_extract,
    Array.length_toList, Array.size_extract, hmin] at h
  split at h
  · rename_i hlt
    have hpos : a + (b - a - 1) = b - 1 := by omega
    rw [byteAt, Array.getD_eq_getD_getElem?, ← hpos, show t.bytes[a + (b - a - 1)]? = some x from h]
    rfl
  · cases h

/-- The bytes on both sides of a seam decode apart. -/
theorem Seam.apart {a b c : Nat} (h : t.Seam b) :
    Utf8.Apart (t.bytesIn a b) (t.bytesIn b c) := by
  intro x hx y hy
  have hhead := head?_bytesIn hy
  rcases h with rfl | h | h
  · simp [bytesIn] at hx
  · rcases Nat.le_total b t.size with hle | hge
    · exact Or.inl (getLast?_bytesIn hle hx ▸ h)
    · exact Or.inr (hhead ▸ by rw [t.byteAt_eq_zero hge]; decide)
  · exact Or.inr (hhead ▸ h)

/-- A slice cut at a seam shows as its two parts. -/
theorem slice_append {a b c : Nat} (h : t.Seam b) (hab : a ≤ b) (hbc : b ≤ c) :
    (t.slice a b).toList ++ (t.slice b c).toList = (t.slice a c).toList := by
  simp only [slice, Utf8.toDisplay, String.toList_ofList]
  rw [← Utf8.lossy_append h.apart, t.bytesIn_append hab hbc]

end Text

end Restyle
