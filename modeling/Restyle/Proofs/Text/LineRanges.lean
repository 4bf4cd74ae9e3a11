/-
Restyle.Proofs.Text.LineRanges — a text as the lines it is made of.

The line table is given in closed form (`starts_eq_filter`): 0 and the
places behind the bytes that end lines. A line is the range of bytes from
its start to the start of the next one (`lineOf_eq_iff`). The ranges put
together are the text (`flatMap_lineBytes`), and each of them but the last
is a body with one terminator behind it (`exists_lineBytes_eq`).
-/
import Restyle.Proofs.Text.Lines

namespace Restyle

/-! ## 1. The line table -/

/-- Line breaks stand behind the bytes that end lines, and nowhere else. -/
theorem lineBreaks_eq_filter : ∀ (bytes : List UInt8) (p : Nat),
    lineBreaks p bytes = ((List.range bytes.length).filter (breaksIn bytes)).map (p + · + 1)
  | [], _ => rfl
  | b :: rest, p => by
    have head : breaksIn (b :: rest) 0 = endsLine b rest := rfl
    have tail : breaksIn (b :: rest) ∘ Nat.succ = breaksIn rest := rfl
    have shift : (fun i => p + (i + 1) + 1) = (fun i => p + 1 + i + 1) := by
      funext i
      omega
    rw [lineBreaks, lineBreaks_eq_filter rest (p + 1), List.length_cons, List.range_succ_eq_map,
      List.filter_cons, head, List.filter_map, tail]
    split <;> simp [Function.comp_def, shift]

namespace Text

variable (t : Text)

/-- Lines start at 0 and right behind the bytes that end lines, in order. -/
theorem starts_eq_filter :
    t.starts.toList = 0 :: ((List.range t.size).filter t.breaksAfter).map (· + 1) := by
  have breaks : breaksIn t.bytes.toList = t.breaksAfter := funext t.breaksIn_eq
  simp only [t.starts_eq, lineStarts, lineBreaks_eq_filter, breaks, Nat.zero_add]
  rfl

/-! ## 2. The range of a line -/

/-- The bytes of a line, its terminator among them. -/
def lineBytes (line : Nat) : List UInt8 := t.bytesIn (t.lineStart line) (t.lineStart (line + 1))

/-- A line holds the positions from its start up to the start of the next one. -/
theorem lineOf_eq_iff {p : Nat} (h : p < t.size) (line : Nat) :
    t.lineOf p = line ↔ t.lineStart line ≤ p ∧ p < t.lineStart (line + 1) := by
  constructor
  · rintro rfl
    exact ⟨t.lineStart_lineOf_le p, t.lt_lineStart_lineOf_succ h⟩
  · rintro ⟨hstart, hnext⟩
    have hlast := t.lineOf_le_lastLine p
    have hline : line ≤ t.lastLine := by
      refine Nat.le_of_not_lt fun hpast => ?_
      rw [t.lineStart_of_lastLine_lt hpast] at hstart
      omega
    have hle := (t.lineStart_le_iff hline p).1 hstart
    refine (Nat.eq_or_lt_of_le hle).elim Eq.symm fun hlt => ?_
    have hnext' := (t.lineStart_le_iff (Nat.le_trans hlt hlast) p).2 hlt
    exact absurd hnext (Nat.not_lt_of_le hnext')

theorem bytesIn_self (a : Nat) : t.bytesIn a a = [] := by
  simp [bytesIn]

theorem bytesIn_append {a b c : Nat} (hab : a ≤ b) (hbc : b ≤ c) :
    t.bytesIn a b ++ t.bytesIn b c = t.bytesIn a c := by
  rw [bytesIn, bytesIn, bytesIn, ← Array.toList_append, Array.extract_append_extract,
    Nat.min_eq_left hab, Nat.max_eq_right hbc]

/-- The first lines put together are the text up to the line behind them. -/
theorem flatMap_lineBytes_range (n : Nat) :
    (List.range n).flatMap t.lineBytes = t.bytesIn 0 (t.lineStart n) := by
  induction n with
  | zero =>
    rw [Nat.le_zero.1 ((t.lineStart_le_iff (Nat.zero_le _) 0).2 (Nat.zero_le _)), bytesIn_self]
    rfl
  | succ n ih =>
    rw [List.range_succ, List.flatMap_append, ih, List.flatMap_singleton, lineBytes,
      t.bytesIn_append (Nat.zero_le _) (t.lineStart_mono (Nat.le_succ n))]

/-- All lines put together are the text. -/
theorem flatMap_lineBytes : (List.range t.lineCount).flatMap t.lineBytes = t.bytes.toList := by
  rw [flatMap_lineBytes_range, t.lineStart_of_lastLine_lt (by rw [lineCount_eq_lastLine]; omega)]
  simp [bytesIn, size]

/-! ## 3. Terminators -/

/-- The byte sequences that end a line. -/
def terminators : List (List UInt8) := [[lf], [cr], [cr, lf]]

/-- Bytes without a line terminator or a part of one. -/
def Unbroken (bytes : List UInt8) : Prop := lf ∉ bytes ∧ cr ∉ bytes

/-- Such bytes break no line. -/
theorem lineBreaks_append {xs : List UInt8} (h : Unbroken xs) (ys : List UInt8) (p : Nat) :
    lineBreaks p (xs ++ ys) = lineBreaks (p + xs.length) ys := by
  induction xs generalizing p with
  | nil => rfl
  | cons x xs ih =>
    obtain ⟨hlf, hcr⟩ := h
    rw [List.mem_cons, not_or] at hlf hcr
    have hends : endsLine x (xs ++ ys) = false := by
      simp [endsLine, Ne.symm hlf.1, Ne.symm hcr.1]
    rw [List.cons_append, lineBreaks, if_neg (by rw [hends]; exact Bool.false_ne_true),
      ih ⟨hlf.2, hcr.2⟩, List.length_cons]
    congr 1
    omega

theorem exists_of_mem_bytesIn {a b : Nat} {x : UInt8} (h : x ∈ t.bytesIn a b) :
    ∃ p, a ≤ p ∧ p < b ∧ p < t.size ∧ t.byteAt p = x.toNat := by
  obtain ⟨i, hi⟩ := List.mem_iff_getElem?.1 h
  rw [bytesIn, Array.getElem?_toList, Array.getElem?_extract] at hi
  split at hi
  · rename_i hlt
    have hsize : a + i < t.size := by
      rw [size]; omega
    refine ⟨a + i, Nat.le_add_right a i, by omega, hsize, ?_⟩
    rw [byteAt, Array.getD_eq_getD_getElem?, hi]
    rfl
  · contradiction

theorem bytesIn_succ {a : Nat} (h : a < t.size) {x : UInt8} (hx : t.byteAt a = x.toNat) :
    t.bytesIn a (a + 1) = [x] := by
  have hsize : a < t.bytes.size := h
  have hget : t.bytes[a] = x := by
    rw [← UInt8.toNat_inj, ← hx, byteAt, Array.getD_eq_getD_getElem?,
      Array.getElem?_eq_getElem hsize]
    rfl
  rw [bytesIn, Array.extract_succ_right (Nat.lt_succ_self a) hsize, hget]
  simp

theorem bytesIn_cons {a b : Nat} (hab : a < b) (h : a < t.size) :
    ∃ x : UInt8, x.toNat = t.byteAt a ∧ t.bytesIn a b = x :: t.bytesIn (a + 1) b := by
  have hsize : a < t.bytes.size := h
  have hbyte : (t.bytes[a]).toNat = t.byteAt a := by
    rw [byteAt, Array.getD_eq_getD_getElem?, Array.getElem?_eq_getElem hsize]
    rfl
  refine ⟨t.bytes[a], hbyte, ?_⟩
  rw [← t.bytesIn_append (Nat.le_succ a) hab, t.bytesIn_succ h hbyte.symm]
  rfl

theorem lineEnd_le (line : Nat) : t.lineEnd line ≤ t.lineStart (line + 1) := by
  simp only [lineEnd]
  split
  · exact Nat.le_refl _
  · split
    · exact Nat.sub_le ..
    · split
      · exact Nat.sub_le ..
      · exact Nat.le_refl _

/-- There is no terminator, nor a part of one, before the end of a line. -/
theorem unbroken_body (line : Nat) : Unbroken (t.bytesIn (t.lineStart line) (t.lineEnd line)) := by
  have inside (x : UInt8) (hx : x = lf ∨ x = cr) :
      x ∉ t.bytesIn (t.lineStart line) (t.lineEnd line) := by
    intro hmem
    obtain ⟨p, hp, hend, hsize, hbyte⟩ := t.exists_of_mem_bytesIn hmem
    have hline := (t.lineOf_eq_iff hsize line).2 ⟨hp, Nat.lt_of_lt_of_le hend (t.lineEnd_le line)⟩
    by_cases hb : t.breaksAfter p = true
    · -- the line would end here
      have := t.lineEnd_of_breaksAfter hb
      rw [hline] at this
      split at this <;> omega
    · -- it is the carriage return of a pair, where the terminator of the line starts
      have hpair : t.byteAt p = 13 ∧ t.byteAt (p + 1) = 10 := by
        rcases hx with rfl | rfl <;> simp [breaksAfter, hbyte, lf, cr] at hb ⊢
        omega
      have hnext : t.breaksAfter (p + 1) = true := by simp [breaksAfter, hpair.2]
      have hends : t.endsPair (p + 1) = true := by simp [endsPair, hpair]
      have := t.lineEnd_of_breaksAfter hnext
      rw [t.lineOf_succ, if_neg hb, Nat.add_zero, hline, hends, if_pos rfl] at this
      omega
  exact ⟨inside lf (Or.inl rfl), inside cr (Or.inr rfl)⟩

/-- A line break is either the end of a pair, whose carriage return breaks no line, or a
terminator by itself. -/
theorem endsPair_cases {q : Nat} (h : t.breaksAfter q = true) :
    (∃ r, q = r + 1 ∧ t.byteAt r = 13 ∧ t.byteAt q = 10 ∧ t.lineOf r = t.lineOf q
        ∧ t.lineEnd (t.lineOf q) = r)
      ∨ t.lineEnd (t.lineOf q) = q := by
  have hend := t.lineEnd_of_breaksAfter h
  by_cases hpair : t.endsPair q = true
  · rw [if_pos hpair] at hend
    simp only [endsPair, Bool.and_eq_true, beq_iff_eq, decide_eq_true_eq] at hpair
    obtain ⟨⟨hlf, hpos⟩, hcr⟩ := hpair
    obtain ⟨r, rfl⟩ := Nat.exists_eq_add_one.2 hpos
    have hno : t.breaksAfter r = false := by
      rw [Nat.add_sub_cancel] at hcr
      simp [breaksAfter, hlf, hcr]
    refine Or.inl ⟨r, rfl, hcr, hlf, ?_, hend⟩
    rw [t.lineOf_succ, hno]
    rfl
  · rw [if_neg hpair] at hend
    exact Or.inr hend

theorem lineStart_le_lineEnd {line : Nat} (h : line < t.lastLine) :
    t.lineStart line ≤ t.lineEnd line := by
  obtain ⟨q, -, hbreak, rfl⟩ := t.exists_breaksAfter_of_lt h
  rcases t.endsPair_cases hbreak with ⟨r, -, -, -, hline, hend⟩ | hend
  · rw [hend, ← hline]
    exact t.lineStart_lineOf_le r
  · rw [hend]
    exact t.lineStart_lineOf_le q

theorem lineStart_le_lineEnd_of_le {line : Nat} (h : line ≤ t.lastLine) :
    t.lineStart line ≤ t.lineEnd line := by
  rcases Nat.lt_or_eq_of_le h with hlt | rfl
  · exact t.lineStart_le_lineEnd hlt
  · rw [lineEnd, if_pos (Or.inl (Nat.le_refl _))]
    exact t.lineStart_mono (Nat.le_succ _)

/-- What stands from the end of a line to the next one is a terminator. -/
theorem bytesIn_lineEnd_mem {line : Nat} (h : line < t.lastLine) :
    t.bytesIn (t.lineEnd line) (t.lineStart (line + 1)) ∈ terminators := by
  obtain ⟨q, hq, hbreak, rfl⟩ := t.exists_breaksAfter_of_lt h
  have hsize := t.lt_size_of_breaksAfter hbreak
  rw [hq]
  rcases t.endsPair_cases hbreak with ⟨r, rfl, hcr, hlf, -, hend⟩ | hend
  · rw [hend, ← t.bytesIn_append (Nat.le_succ r) (Nat.le_succ (r + 1)),
      t.bytesIn_succ (Nat.lt_of_succ_lt hsize) (x := cr) hcr, t.bytesIn_succ hsize (x := lf) hlf]
    simp [terminators]
  · rw [hend]
    rcases t.byteAt_of_breaksAfter hbreak with hlf | hcr
    · simp [t.bytesIn_succ hsize (x := lf) hlf, terminators]
    · simp [t.bytesIn_succ hsize (x := cr) hcr, terminators]

/-- Every line but the last is a body and one terminator behind it. -/
theorem exists_lineBytes_eq {line : Nat} (h : line < t.lastLine) :
    ∃ body, ∃ terminator ∈ terminators,
      t.lineBytes line = body ++ terminator ∧ Unbroken body :=
  ⟨_, _, t.bytesIn_lineEnd_mem h,
    (t.bytesIn_append (t.lineStart_le_lineEnd h) (t.lineEnd_le line)).symm, t.unbroken_body line⟩

/-- The last line has no terminator. -/
theorem unbroken_lastLine : Unbroken (t.lineBytes t.lastLine) := by
  have h := t.unbroken_body t.lastLine
  rw [lineEnd] at h
  simpa [lineBytes] using h

end Text

end Restyle
