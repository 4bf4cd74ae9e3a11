/-
Restyle.Proofs.Cursor.Places — where a walk stands in its text.

A cursor counts lines by the ends it passes and never looks its position
up. `Cursor.InSync` says that what it carries is nevertheless what the text
has there, and holds along every walk (`InSync.iterate`). Here this is put
in terms of line terminators, as the bytes show them: the last byte of one
is where a line ends (`breaksAfter_iff`), the first is what the line table
gives as the end of its line (`eq_lineEnd_iff`).
-/
import Mathlib.Logic.Function.Iterate
import Restyle.Proofs.Cursor.Sync
import Restyle.Proofs.Text.LineRanges

namespace Restyle

namespace Text

/-! ## 1. Line terminators -/

/-- A line terminator stands from the byte at `first` to the byte at `last`. -/
inductive Terminator (t : Text) : Nat → Nat → Prop
  | lf {p : Nat} (byte : t.byteAt p = '\n'.toNat) (alone : ¬ t.PrecededBy '\r' p) :
    Terminator t p p
  | cr {p : Nat} (byte : t.byteAt p = '\r'.toNat) (alone : t.byteAt (p + 1) ≠ '\n'.toNat) :
    Terminator t p p
  | crlf {p : Nat} (byte : t.byteAt p = '\r'.toNat) (after : t.byteAt (p + 1) = '\n'.toNat) :
    Terminator t p (p + 1)

variable {t : Text}

/-- A line ends after the last byte of its terminator. -/
theorem Terminator.breaksAfter {first last : Nat} (h : t.Terminator first last) :
    t.breaksAfter last = true := by
  cases h with
  | lf byte _ => simp [Text.breaksAfter, byte]
  | cr byte alone => simpa [Text.breaksAfter, byte] using alone
  | crlf _ after => simp [Text.breaksAfter, after]

/-- Both bytes of a pair are on the line that it ends. -/
theorem Terminator.lineOf_eq {first last : Nat} (h : t.Terminator first last) :
    t.lineOf last = t.lineOf first := by
  cases h with
  | lf => rfl
  | cr => rfl
  | crlf byte after =>
    have hno : t.breaksAfter first = false := by simp [Text.breaksAfter, byte, after]
    rw [t.lineOf_succ, hno]
    rfl

theorem Terminator.lineEnd_eq {first last : Nat} (h : t.Terminator first last) :
    t.lineEnd (t.lineOf last) = first := by
  rw [t.lineEnd_of_breaksAfter h.breaksAfter]
  cases h with
  | lf byte alone =>
    refine if_neg fun hpair => alone ?_
    simp only [endsPair, Bool.and_eq_true, beq_iff_eq, decide_eq_true_eq] at hpair
    exact ⟨hpair.1.2, hpair.2⟩
  | cr byte _ => simp [endsPair, byte]
  | crlf byte after => simp [endsPair, byte, after]

/-- Where a line ends, its terminator starts where the line table has the end of the line. -/
theorem terminator_of_breaksAfter {q : Nat} (h : t.breaksAfter q = true) :
    t.Terminator (t.lineEnd (t.lineOf q)) q := by
  have hend := t.lineEnd_of_breaksAfter h
  rcases t.endsPair_cases h with ⟨r, rfl, hcr, hlf, -, hr⟩ | hq
  · rw [hr]
    exact .crlf hcr hlf
  · rw [hq] at hend ⊢
    rcases t.byteAt_of_breaksAfter h with hlf | hcr
    · refine .lf hlf fun ⟨hpos, hbefore⟩ => ?_
      have hpair : t.endsPair q = true := by simp [endsPair, hlf, hpos, hbefore]
      rw [hpair, if_pos rfl] at hend
      omega
    · refine .cr hcr ?_
      simpa [Text.breaksAfter, hcr] using h

/-- A line ends on the last bytes of terminators and nowhere else. -/
theorem breaksAfter_iff {p : Nat} :
    t.breaksAfter p = true ↔ ∃ first, t.Terminator first p ∧ t.lineOf first = t.lineOf p :=
  ⟨fun h => ⟨_, terminator_of_breaksAfter h, (terminator_of_breaksAfter h).lineOf_eq.symm⟩,
    fun ⟨_, h, _⟩ => h.breaksAfter⟩

/-- What the line table has as the end of a line is the first byte of its terminator, or the
end of the text. -/
theorem eq_lineEnd_iff {p : Nat} (hp : p ≤ t.size) : p = t.lineEnd (t.lineOf p) ↔
    (∃ last, t.Terminator p last ∧ t.lineOf last = t.lineOf p) ∨ t.size ≤ p := by
  have hlast : t.lineEnd t.lastLine = t.size := by
    rw [lineEnd, if_pos (Or.inl (Nat.le_refl _)), t.lineStart_of_lastLine_lt (Nat.lt_succ_self _)]
  constructor
  · intro h
    rcases Nat.lt_or_eq_of_le (t.lineOf_le_lastLine p) with hlt | heq
    · obtain ⟨q, -, hbreak, hline⟩ := t.exists_breaksAfter_of_lt hlt
      have hterm := terminator_of_breaksAfter hbreak
      rw [hline, ← h] at hterm
      exact Or.inl ⟨q, hterm, hline⟩
    · rw [heq, hlast] at h
      exact Or.inr (Nat.le_of_eq h.symm)
  · rintro (⟨last, hterm, hline⟩ | hend)
    · rw [← hline, hterm.lineEnd_eq]
    · rw [t.lineOf_of_size_le hend, hlast]
      exact Nat.le_antisymm hp hend

end Text

namespace Cursor

variable {t : Text}

/-! ## 2. Along a walk -/

theorem InSync.iterate {c : Cursor t} (h : c.InSync) :
    ∀ n, (∀ i < n, (Cursor.forward^[i] c).more = true) → (Cursor.forward^[n] c).InSync
  | 0, _ => h
  | n + 1, hmore => by
    rw [Function.iterate_succ_apply']
    exact (h.iterate n fun i hi => hmore i (Nat.lt_succ_of_lt hi)).forward
      (hmore n (Nat.lt_succ_self n))

/-! ## 3. What a cursor says of its line -/

namespace InSync

variable {c : Cursor t} (h : c.InSync) (hp : c.pos ≤ t.size)
include h hp

theorem line_eq : c.line = t.lineOf c.pos := by rw [h.line, t.lineAt_of_le hp]

/-- Up to the end of the text a walk is at its end on the last line only. -/
theorem size_le_iff : t.size ≤ c.pos ↔ c.line = t.lastLine ∧ c.pos = t.size := by
  constructor
  · intro hs
    have heq : c.pos = t.size := Nat.le_antisymm hp hs
    exact ⟨by rw [h.line_eq hp, heq]; rfl, heq⟩
  · intro hs
    exact Nat.le_of_eq hs.2.symm

theorem atLineStart_iff : c.atLineStart = true ↔ t.lineStart c.line = c.pos := by
  rw [h.line_eq hp, t.lineStart_lineOf_eq_iff, h.atLineStart]
  simp only [Text.lineEndsAt, Bool.or_eq_true, beq_iff_eq, decide_eq_true_eq]
  constructor
  · rintro (hzero | hbreak | hend)
    · exact Or.inl hzero
    · exact Or.inr hbreak
    · exact Or.inl (by omega)
  · rintro (hzero | hbreak)
    · exact Or.inl hzero
    · exact Or.inr (Or.inl hbreak)

theorem atLineEnd_iff : c.atLineEnd = true ↔
    (∃ first, t.Terminator first c.pos ∧ t.lineOf first = c.line)
      ∨ c.line = t.lastLine ∧ c.pos = t.size := by
  rw [h.atLineEnd, Text.lineEndsAt, Bool.or_eq_true, Text.breaksAfter_iff, decide_eq_true_eq,
    ← h.line_eq hp, h.size_le_iff hp]

theorem atTerminator_iff : c.atTerminator = true ↔
    (∃ last, t.Terminator c.pos last ∧ t.lineOf last = c.line)
      ∨ c.line = t.lastLine ∧ c.pos = t.size := by
  rw [atTerminator, beq_iff_eq, h.line_eq hp, Text.eq_lineEnd_iff hp, ← h.line_eq hp,
    h.size_le_iff hp]

end InSync

/-! ## 4. Every place of a walk -/

/-- Along a walk over a range of a text, up to the end of the text, a cursor has the character
at its position and the one behind it, and the line of its position; it is at the start of its
line where the line starts, at the end of it on the last byte of the terminator, and at the
terminator on its first byte. On the last line the end of the text stands for both. -/
theorem forwards_in_place (t : Text) (start length n : Nat) (hrange : start + length ≤ t.size)
    (hmore : ∀ i < n, (Cursor.forward^[i] (Cursor.start t start length)).more = true)
    (hpos : (Cursor.forward^[n] (Cursor.start t start length)).pos ≤ t.size) :
    let c := Cursor.forward^[n] (Cursor.start t start length)
    (⟨c.ch, c.width⟩ : Utf8.Decoded) = t.charAt c.pos
    ∧ (⟨c.next, c.nextWidth⟩ : Utf8.Decoded) = t.charAt (c.pos + c.width)
    ∧ c.line = t.lineOf c.pos
    ∧ (c.atLineStart = true ↔ t.lineStart c.line = c.pos)
    ∧ (c.atLineEnd = true ↔ (∃ first, t.Terminator first c.pos ∧ t.lineOf first = c.line)
      ∨ c.line = t.lastLine ∧ c.pos = t.size)
    ∧ (c.atTerminator = true ↔ (∃ last, t.Terminator c.pos last ∧ t.lineOf last = c.line)
      ∨ c.line = t.lastLine ∧ c.pos = t.size) := by
  intro c
  have h : c.InSync := (inSync_start hrange).iterate n hmore
  refine ⟨?_, ?_, h.line_eq hpos, h.atLineStart_iff hpos, h.atLineEnd_iff hpos,
    h.atTerminator_iff hpos⟩
  · rw [h.ch, h.width]
  · rw [h.next, h.nextWidth]

/-- A walk that starts between the two bytes of a pair. -/
theorem forwards_in_place_of_pair :
    let t := Text.ofBytes #[0x0D, 0x0A, 0xC3, 0xA9] .utf8
    let c := Cursor.forward^[1] (Cursor.start t 1 3)
    (⟨c.ch, c.width⟩ : Utf8.Decoded) = ⟨0xE9, 2⟩ ∧ c.line = 1 ∧ t.lineStart c.line = c.pos := by
  obtain ⟨hch, -, hline, hstart, -, -⟩ := forwards_in_place
    (Text.ofBytes #[0x0D, 0x0A, 0xC3, 0xA9] .utf8) 1 3 1 (by decide) (by decide) (by decide)
  exact ⟨hch, hline, hstart.1 (by decide)⟩

end Cursor

end Restyle
