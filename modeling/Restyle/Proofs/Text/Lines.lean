/-
Restyle.Proofs.Text.Lines — where the lines of a text start and end, told
from its bytes.

`breaksAfter` says which bytes are the last of a line terminator. The
line of a position is the number of such bytes before it (`lineOf_succ`),
and the start of a line is the least position on it (`lineStart_le_iff`).
Every other fact about the line table follows from these two.

A walk over a text may also stand one position behind the end. `lineAt`
is the line it is on then, and `lineEndsAt` counts the end of the text as
the end of its last line.
-/
import Restyle.Cursor
import Restyle.Text.LineTable

namespace Restyle

/-! ## 1. Sorted tables -/

/-- In a strictly sorted list an entry is at most `p` exactly when it is among the
first so many as are at most `p`. -/
theorem getElem_le_iff_lt_countP {p : Nat} : ∀ {xs : List Nat}, xs.Pairwise (· < ·) →
    ∀ {i : Nat} (hi : i < xs.length), xs[i] ≤ p ↔ i < xs.countP (· ≤ p)
  | x :: xs, hs, i, hi => by
    obtain ⟨hx, hs⟩ := List.pairwise_cons.1 hs
    by_cases hxp : x ≤ p
    · cases i with
      | zero => simp [hxp]
      | succ i => simp [hxp, getElem_le_iff_lt_countP hs (by simpa using hi)]
    · -- every later entry is greater still
      have none : xs.countP (· ≤ p) = 0 := by
        rw [List.countP_eq_zero]
        intro y hy
        have := hx y hy
        simp; omega
      cases i with
      | zero => simp [hxp, none]
      | succ i =>
        have hi : i < xs.length := by simpa using hi
        have := hx xs[i] (List.getElem_mem hi)
        simp [hxp, none]; omega

theorem pairwise_lineBreaks : ∀ (bytes : List UInt8) (p : Nat),
    (lineBreaks p bytes).Pairwise (· < ·)
  | [], _ => List.Pairwise.nil
  | b :: rest, p => by
    rw [lineBreaks]
    split
    · exact List.pairwise_cons.2
        ⟨fun _ h => lt_of_mem_lineBreaks h, pairwise_lineBreaks rest (p + 1)⟩
    · exact pairwise_lineBreaks rest (p + 1)

theorem le_of_mem_lineBreaks {q : Nat} : ∀ {bytes : List UInt8} {p : Nat},
    q ∈ lineBreaks p bytes → q ≤ p + bytes.length
  | [], _, h => by simp [lineBreaks] at h
  | b :: rest, p, h => by
    have tail : q ∈ lineBreaks (p + 1) rest → q ≤ p + (b :: rest).length := by
      intro h
      have := le_of_mem_lineBreaks h
      simp; omega
    rw [lineBreaks] at h
    split at h
    · rcases List.mem_cons.1 h with rfl | h
      · simp
      · exact tail h
    · exact tail h

/-- Whether the byte at `i` is the last of a line terminator. -/
def breaksIn (bytes : List UInt8) (i : Nat) : Bool :=
  match bytes.drop i with
  | [] => false
  | b :: rest => endsLine b rest

/-- Counting breaks one position further counts the byte in between. -/
theorem countP_lineBreaks_succ : ∀ (bytes : List UInt8) (p i : Nat),
    (lineBreaks p bytes).countP (· ≤ p + i + 1)
      = (lineBreaks p bytes).countP (· ≤ p + i) + if breaksIn bytes i then 1 else 0
  | [], _, _ => by simp [lineBreaks, breaksIn]
  | b :: rest, p, 0 => by
    have h₀ := countP_lineBreaks_eq_zero (Nat.le_refl (p + 1)) rest
    have h₁ : (lineBreaks (p + 1) rest).countP (· ≤ p + 0) = 0 :=
      countP_lineBreaks_eq_zero (Nat.le_succ p) rest
    have drop : breaksIn (b :: rest) 0 = endsLine b rest := rfl
    rw [drop, lineBreaks]
    split
    · rw [List.countP_cons, List.countP_cons, h₀, h₁]
      simp
    · rw [h₀, h₁]
  | b :: rest, p, i + 1 => by
    have ih := countP_lineBreaks_succ rest (p + 1) i
    have drop : breaksIn (b :: rest) (i + 1) = breaksIn rest i := rfl
    rw [drop, lineBreaks]
    rw [show p + 1 + i = p + (i + 1) by omega] at ih
    split
    · rw [List.countP_cons, List.countP_cons, ih]
      simp; omega
    · exact ih

namespace Text

variable (t : Text)

/-! ## 2. Bytes that end lines -/

/-- Whether the byte at `pos` is the last of a line terminator. -/
def breaksAfter (pos : Nat) : Bool :=
  t.byteAt pos == '\n'.toNat || (t.byteAt pos == '\r'.toNat && t.byteAt (pos + 1) != '\n'.toNat)

/-- Whether a walk at `pos` stands on the last character of a line; on the last line
that is the end of the text. -/
def lineEndsAt (pos : Nat) : Bool := t.breaksAfter pos || t.size ≤ pos

theorem byteAt_eq_zero {p : Nat} (h : t.size ≤ p) : t.byteAt p = 0 := by
  simp [byteAt, Array.getD_eq_getD_getElem?, Array.getElem?_eq_none h]

theorem lt_size_of_byteAt {p : Nat} (h : t.byteAt p ≠ 0) : p < t.size := by
  by_cases hpos : t.size ≤ p
  · exact absurd (t.byteAt_eq_zero hpos) h
  · omega

theorem byteAt_of_breaksAfter {pos : Nat} (h : t.breaksAfter pos = true) :
    t.byteAt pos = 10 ∨ t.byteAt pos = 13 := by
  simp [breaksAfter] at h
  omega

theorem lt_size_of_breaksAfter {pos : Nat} (h : t.breaksAfter pos = true) : pos < t.size := by
  apply t.lt_size_of_byteAt
  intro h0
  simp [breaksAfter, h0] at h

/-- Whether `c` stands directly before `pos`. -/
def PrecededBy (c : Char) (pos : Nat) : Prop := 0 < pos ∧ t.byteAt (pos - 1) = c.toNat

theorem precededBy_succ {c : Char} {pos : Nat} (h : t.byteAt pos = c.toNat) :
    t.PrecededBy c (pos + 1) := ⟨Nat.succ_pos pos, h⟩

/-- Whether the byte at `pos` is the line feed of a CRLF. -/
def endsPair (pos : Nat) : Bool :=
  t.byteAt pos == 10 && decide (0 < pos) && t.byteAt (pos - 1) == 13

theorem breaksIn_eq (pos : Nat) : breaksIn t.bytes.toList pos = t.breaksAfter pos := by
  have at_pos (q : Nat) : t.byteAt q = (t.bytes.toList[q]?.getD 0).toNat := by
    simp [byteAt, Array.getD_eq_getD_getElem?]
  rw [breaksIn]
  cases hd : t.bytes.toList.drop pos with
  | nil =>
    have hlen := List.drop_eq_nil_iff.1 hd
    have h0 : t.byteAt pos = 0 := t.byteAt_eq_zero (by simpa [size] using hlen)
    simp [breaksAfter, h0]
  | cons b rest =>
    have hb : t.bytes.toList[pos]? = some b := by
      rw [← List.head?_drop, hd]; rfl
    have hr : t.bytes.toList[pos + 1]? = rest.head? := by
      rw [← List.head?_drop, ← List.tail_drop, hd]; rfl
    have toNat_eq (b c : UInt8) : (b == c) = (b.toNat == c.toNat) := by
      rw [Bool.eq_iff_iff]; simp [UInt8.toNat_inj]
    rw [breaksAfter, at_pos pos, at_pos (pos + 1), hb, hr]
    cases rest with
    | nil =>
      simp only [endsLine, lf, cr, toNat_eq, List.head?_nil, Option.getD_some]
      rfl
    | cons c rest =>
      simp only [endsLine, lf, cr, List.head?_cons, Option.getD_some]
      rw [toNat_eq, toNat_eq, show (some c != some (10 : UInt8)) = !(c == 10) by rfl, toNat_eq]
      rfl

/-! ## 3. The line of a position -/

theorem lineOf_zero : t.lineOf 0 = 0 := by
  rw [lineOf_eq]
  exact countP_lineBreaks_eq_zero (Nat.le_refl 0) _

/-- The line of a position is the number of line ends before it. -/
theorem lineOf_succ (pos : Nat) :
    t.lineOf (pos + 1) = t.lineOf pos + if t.breaksAfter pos then 1 else 0 := by
  have h := countP_lineBreaks_succ t.bytes.toList 0 pos
  rw [Nat.zero_add] at h
  rw [lineOf_eq, lineOf_eq, h, breaksIn_eq]

theorem lineOf_mono {p q : Nat} (h : p ≤ q) : t.lineOf p ≤ t.lineOf q := by
  induction h with
  | refl => exact Nat.le_refl _
  | @step q _ ih => rw [Nat.succ_eq_add_one, lineOf_succ]; omega

/-- Positions with no line end between them are on one line. -/
theorem lineOf_eq_of_no_break {p q : Nat} (h : p ≤ q)
    (hno : ∀ r, p ≤ r → r < q → t.breaksAfter r = false) : t.lineOf q = t.lineOf p := by
  induction h with
  | refl => rfl
  | @step q hle ih =>
    rw [Nat.succ_eq_add_one, lineOf_succ, ih fun r hr hr' => hno r hr (by omega),
      hno q hle (Nat.lt_succ_self q)]
    simp

theorem lineOf_of_size_le {pos : Nat} (h : t.size ≤ pos) : t.lineOf pos = t.lastLine := by
  apply t.lineOf_eq_of_no_break h
  intro r hr _
  cases hb : t.breaksAfter r with
  | false => rfl
  | true => have := t.lt_size_of_breaksAfter hb; omega

theorem lineOf_le_lastLine (pos : Nat) : t.lineOf pos ≤ t.lastLine := by
  by_cases h : pos ≤ t.size
  · exact t.lineOf_mono h
  · exact Nat.le_of_eq (t.lineOf_of_size_le (by omega))

theorem lineCount_eq_lastLine : t.lineCount = t.lastLine + 1 := by
  rw [lineCount_eq, lastLine, lineOf_eq, List.countP_eq_length.2]
  intro q hq
  have := le_of_mem_lineBreaks hq
  rw [decide_eq_true_iff]
  simpa [size] using this

/-! ## 4. Where lines start -/

theorem lt_length_starts_iff {line : Nat} :
    line < t.starts.toList.length ↔ line < t.lineCount := by
  simp [lineCount]

theorem getElem_starts {line : Nat} (h : line < t.starts.toList.length) :
    t.starts.toList[line] = t.lineStart line := by
  have h' : line < t.starts.size := h
  simp [lineStart, Array.getD_eq_getD_getElem?, h']

theorem pairwise_starts : t.starts.toList.Pairwise (· < ·) := by
  rw [t.starts_eq]
  exact List.pairwise_cons.2
    ⟨fun _ h => lt_of_mem_lineBreaks h, pairwise_lineBreaks _ _⟩

/-- A line starts at or before the positions that are on it or on a later line. -/
theorem lineStart_le_iff {line : Nat} (h : line ≤ t.lastLine) (pos : Nat) :
    t.lineStart line ≤ pos ↔ line ≤ t.lineOf pos := by
  have hlt : line < t.lineCount := by rw [lineCount_eq_lastLine]; omega
  have count : t.starts.countP (· ≤ pos) = t.lineOf pos + 1 := by
    rw [lineOf_eq, t.starts_eq]
    simp [lineStarts]
  rw [← t.getElem_starts (t.lt_length_starts_iff.2 hlt),
    getElem_le_iff_lt_countP t.pairwise_starts, Array.countP_toList, count]
  omega

theorem lineStart_of_lastLine_lt {line : Nat} (h : t.lastLine < line) :
    t.lineStart line = t.size := by
  have hsize : t.starts.size ≤ line := by
    have := t.lineCount_eq_lastLine
    rw [lineCount] at this
    omega
  simp [lineStart, Array.getD_eq_getD_getElem?, Array.getElem?_eq_none hsize]

theorem lineStart_lineOf_le (pos : Nat) : t.lineStart (t.lineOf pos) ≤ pos :=
  (t.lineStart_le_iff (t.lineOf_le_lastLine pos) pos).2 (Nat.le_refl _)

theorem lt_lineStart_succ {pos : Nat} (h : t.lineOf pos < t.lastLine) :
    pos < t.lineStart (t.lineOf pos + 1) := by
  have := t.lineStart_le_iff (Nat.succ_le_of_lt h) pos
  rw [Nat.succ_eq_add_one] at this
  omega

theorem lineStart_le_size (line : Nat) : t.lineStart line ≤ t.size := by
  by_cases h : line ≤ t.lastLine
  · exact (t.lineStart_le_iff h t.size).2 h
  · exact Nat.le_of_eq (t.lineStart_of_lastLine_lt (by omega))

theorem lineOf_lineStart {line : Nat} (h : line ≤ t.lastLine) :
    t.lineOf (t.lineStart line) = line := by
  have h₁ := (t.lineStart_le_iff h (t.lineStart line)).1 (Nat.le_refl _)
  have h₂ := t.lineStart_lineOf_le (t.lineStart line)
  -- if the line of the start were a later one, the position would come before itself
  by_cases heq : t.lineOf (t.lineStart line) = line
  · exact heq
  · exfalso
    have hsort := t.pairwise_starts
    have hl : line < t.lineCount := by rw [lineCount_eq_lastLine]; omega
    have hl' : t.lineOf (t.lineStart line) < t.lineCount := by
      rw [lineCount_eq_lastLine]; have := t.lineOf_le_lastLine (t.lineStart line); omega
    have := List.pairwise_iff_getElem.1 hsort line (t.lineOf (t.lineStart line))
      (t.lt_length_starts_iff.2 hl) (t.lt_length_starts_iff.2 hl') (by omega)
    rw [t.getElem_starts, t.getElem_starts] at this
    omega

theorem lineStart_lineOf_mono {p q : Nat} (h : p ≤ q) :
    t.lineStart (t.lineOf p) ≤ t.lineStart (t.lineOf q) := by
  rw [t.lineStart_le_iff (t.lineOf_le_lastLine p), t.lineOf_lineStart (t.lineOf_le_lastLine q)]
  exact t.lineOf_mono h

theorem lineStart_mono {i j : Nat} (h : i ≤ j) : t.lineStart i ≤ t.lineStart j := by
  by_cases hj : j ≤ t.lastLine
  · rw [t.lineStart_le_iff (Nat.le_trans h hj), t.lineOf_lineStart hj]
    exact h
  · have hlast : t.lastLine < j := Nat.lt_of_not_le hj
    rw [t.lineStart_of_lastLine_lt hlast]
    exact t.lineStart_le_size i

/-- A position comes before the start of the next line, or of no line if it is on the last. -/
theorem lt_lineStart_lineOf_succ {p : Nat} (h : p < t.size) :
    p < t.lineStart (t.lineOf p + 1) := by
  have hle := t.lineOf_le_lastLine p
  rcases Nat.lt_or_eq_of_le hle with hlt | heq
  · exact t.lt_lineStart_succ hlt
  · rw [heq, t.lineStart_of_lastLine_lt (Nat.lt_succ_self _)]
    exact h

/-- Lines start at the first byte and behind the bytes that end lines. -/
theorem lineStart_lineOf_eq_iff (pos : Nat) :
    t.lineStart (t.lineOf pos) = pos ↔ pos = 0 ∨ t.breaksAfter (pos - 1) = true := by
  have hle := t.lineStart_lineOf_le pos
  cases pos with
  | zero => simp; omega
  | succ pos =>
    have hbefore := t.lineStart_le_iff (t.lineOf_le_lastLine (pos + 1)) pos
    have hsucc := t.lineOf_succ pos
    rw [Nat.add_sub_cancel]
    cases hb : t.breaksAfter pos <;> simp [hb] at hsucc ⊢ <;> omega

/-- The places where a line starts are those that the line table lists. -/
theorem mem_starts_iff {pos : Nat} :
    pos ∈ t.starts ↔ pos = 0 ∨ t.breaksAfter (pos - 1) = true := by
  rw [← lineStart_lineOf_eq_iff, ← Array.mem_toList_iff, List.mem_iff_getElem]
  constructor
  · rintro ⟨line, hline, rfl⟩
    have hlt := t.lt_length_starts_iff.1 hline
    rw [t.getElem_starts, t.lineOf_lineStart (by rw [lineCount_eq_lastLine] at hlt; omega)]
  · intro h
    have hlt : t.lineOf pos < t.lineCount := by
      rw [lineCount_eq_lastLine]; have := t.lineOf_le_lastLine pos; omega
    exact ⟨t.lineOf pos, t.lt_length_starts_iff.2 hlt, by rw [t.getElem_starts, h]⟩

theorem lineStart_mem_starts {line : Nat} (h : line ≤ t.lastLine) : t.lineStart line ∈ t.starts := by
  rw [t.mem_starts_iff, ← t.lineStart_lineOf_eq_iff, t.lineOf_lineStart h]

theorem le_size_of_mem_starts {pos : Nat} (h : pos ∈ t.starts) : pos ≤ t.size := by
  rcases t.mem_starts_iff.1 h with rfl | h
  · exact Nat.zero_le _
  · have := t.lt_size_of_breaksAfter h
    omega

/-- What stands before the end of a line is on an earlier line than what stands behind. -/
theorem lineOf_lt_of_breaksAfter {p q : Nat} (hq : 0 < q) (hb : t.breaksAfter (q - 1) = true)
    (hp : p < q) : t.lineOf p < t.lineOf q := by
  have hsucc := t.lineOf_succ (q - 1)
  rw [Nat.sub_add_cancel hq, hb, if_pos rfl] at hsucc
  have hmono := t.lineOf_mono (p := p) (q := q - 1) (by omega)
  omega

theorem lineOf_lt_of_mem_starts {p q : Nat} (hq : q ∈ t.starts) (hp : p < q) :
    t.lineOf p < t.lineOf q := by
  rcases t.mem_starts_iff.1 hq with rfl | hb
  · omega
  · exact t.lineOf_lt_of_breaksAfter (by omega) hb hp

/-- The terminator of a line starts with the carriage return of its pair, if it is one. -/
theorem lineEnd_of_breaksAfter {pos : Nat} (h : t.breaksAfter pos = true) :
    t.lineEnd (t.lineOf pos) = if t.endsPair pos then pos - 1 else pos := by
  have hsucc := t.lineOf_succ pos
  rw [h, if_pos rfl] at hsucc
  have hstart := (t.lineStart_lineOf_eq_iff (pos + 1)).2 (Or.inr h)
  rw [hsucc] at hstart
  have hlast : ¬ (t.lastLine ≤ t.lineOf pos ∨ pos + 1 = 0) := by
    have := t.lineOf_le_lastLine (pos + 1)
    omega
  have hbyte := t.byteAt_of_breaksAfter h
  simp only [lineEnd, hstart, if_neg hlast, Nat.add_sub_cancel,
    show '\n'.toNat = 10 from rfl, show '\r'.toNat = 13 from rfl,
    show pos + 1 - 2 = pos - 1 from rfl, show (2 ≤ pos + 1) = (0 < pos) from propext (by omega),
    if_pos hbyte, endsPair, Bool.and_eq_true, beq_iff_eq, decide_eq_true_eq, and_assoc]

/-- What stands directly before the start of a line ends the line before it. -/
theorem exists_breaksAfter_of_lt {line : Nat} (h : line < t.lastLine) :
    ∃ q, t.lineStart (line + 1) = q + 1 ∧ t.breaksAfter q = true ∧ t.lineOf q = line := by
  have hstart : t.lineOf (t.lineStart (line + 1)) = line + 1 := t.lineOf_lineStart h
  have hbreak := (t.lineStart_lineOf_eq_iff (t.lineStart (line + 1))).1 (by rw [hstart])
  have hpos : 0 < t.lineStart (line + 1) := by
    refine Nat.pos_of_ne_zero fun hzero => ?_
    rw [hzero, t.lineOf_zero] at hstart
    omega
  obtain ⟨q, hq⟩ := Nat.exists_eq_add_one.2 hpos
  rw [hq, Nat.add_sub_cancel] at hbreak
  have hbreak := hbreak.resolve_left (Nat.succ_ne_zero q)
  rw [hq, t.lineOf_succ, if_pos hbreak] at hstart
  exact ⟨q, hq, hbreak, Nat.succ.inj hstart⟩

/-- A line ends with the text or with a terminator. -/
theorem byteAt_lineEnd {line : Nat} (h : line ≤ t.lastLine) :
    t.lineEnd line = t.size ∨ t.byteAt (t.lineEnd line) = 10 ∨ t.byteAt (t.lineEnd line) = 13 := by
  rcases Nat.lt_or_eq_of_le h with hlt | rfl
  · right
    obtain ⟨q, -, hbreak, rfl⟩ := t.exists_breaksAfter_of_lt hlt
    rw [t.lineEnd_of_breaksAfter hbreak]
    split
    · rename_i hpair
      simp only [endsPair, Bool.and_eq_true, beq_iff_eq] at hpair
      exact Or.inr hpair.2
    · exact t.byteAt_of_breaksAfter hbreak
  · left
    rw [lineEnd]
    simp [t.lineStart_of_lastLine_lt (Nat.lt_succ_self t.lastLine)]

/-! ## 5. The line of a walk -/

/-- The line of a walk at `pos`, which is one past the last line behind the end. -/
def lineAt (pos : Nat) : Nat := t.lineOf pos + if t.size < pos then 1 else 0

theorem lineAt_of_le {p : Nat} (h : p ≤ t.size) : t.lineAt p = t.lineOf p := by
  simp [lineAt]; omega

theorem lineAt_mono {p q : Nat} (h : p ≤ q) : t.lineAt p ≤ t.lineAt q := by
  have hmono := t.lineOf_mono h
  simp only [lineAt]
  split <;> split <;> omega

theorem lineAt_size_succ : t.lineAt (t.size + 1) = t.lastLine + 1 := by
  rw [lineAt, t.lineOf_of_size_le (Nat.le_succ _), if_pos (Nat.lt_succ_self _)]

theorem lineAt_succ {pos : Nat} (h : pos ≤ t.size) :
    t.lineAt (pos + 1) = t.lineAt pos + if t.lineEndsAt pos then 1 else 0 := by
  rw [lineAt_of_le t h, lineAt, lineOf_succ]
  by_cases hs : pos = t.size
  · subst hs
    have : t.breaksAfter t.size = false := by
      cases hb : t.breaksAfter t.size with
      | false => rfl
      | true => have := t.lt_size_of_breaksAfter hb; omega
    simp [lineEndsAt, this]
  · have h' : ¬ t.size ≤ pos := by omega
    have h'' : ¬ t.size < pos + 1 := by omega
    simp [lineEndsAt, h', h'']

/-- What a cursor looks up to see whether its line ends is what the bytes say. -/
theorem endsLineAt_lineAt {pos : Nat} (h : pos ≤ t.size + 1) :
    Cursor.endsLineAt t (t.lineAt pos) pos = t.lineEndsAt pos := by
  by_cases hs : pos ≤ t.size
  · rw [t.lineAt_of_le hs, Cursor.endsLineAt]
    by_cases hlast : t.lineOf pos < t.lastLine
    · have hlt : pos < t.size := by
        by_cases hp : pos < t.size
        · exact hp
        · rw [t.lineOf_of_size_le (by omega)] at hlast; omega
      have hafter := t.lineStart_le_iff hlast (pos + 1)
      have hpos := t.lt_lineStart_succ hlast
      rw [lineOf_succ] at hafter
      rw [if_pos hlast]
      cases hb : t.breaksAfter pos <;> simp [lineEndsAt, hb] at hafter ⊢ <;> omega
    · have hb : t.breaksAfter pos = false := by
        cases hb : t.breaksAfter pos with
        | false => rfl
        | true =>
          have hsucc := t.lineOf_succ pos
          have := t.lineOf_le_lastLine (pos + 1)
          simp [hb] at hsucc
          omega
      have := t.lineOf_le_lastLine pos
      rw [if_neg hlast, t.lineStart_of_lastLine_lt (by omega)]
      simp [lineEndsAt, hb]
  · have hpos : t.size < pos := by omega
    have hline : t.lineAt pos = t.lastLine + 1 := by
      simp [lineAt, hpos, t.lineOf_of_size_le (Nat.le_of_lt hpos)]
    rw [hline, Cursor.endsLineAt, if_neg (by omega), t.lineStart_of_lastLine_lt (by omega)]
    simp [lineEndsAt, Nat.le_of_lt hpos]

end Text

end Restyle
