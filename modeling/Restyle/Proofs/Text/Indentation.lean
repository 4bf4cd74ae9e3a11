/-
Restyle.Proofs.Text.Indentation — the indentation of a line, told from its
bytes.

`columns` are those of the blanks that a line starts with, and a white
line has nothing but blanks and the bytes of its terminator. The mark
that a walk over the line gives to white lines is right
(`white_level_iff`). The walk stops one byte before the next line and
measures the columns up to there (`level_eq`). That is the terminator,
except on the last line; so of a white last line one blank may not count,
but on lines that are not white all do
(`columnsTo_lineStop_of_not_isWhite`).
-/
import Restyle.Indentation
import Restyle.Proofs.Text.LineRanges

namespace Restyle

open Indentation (columnAfter lineStop)

/-! ## 1. Blanks -/

/-- A space or a tab. -/
def isBlankByte (x : UInt8) : Bool := Indentation.isBlank x.toNat

/-- The columns of the blanks that bytes start with, from `column` on. -/
def columnsFrom (column : Nat) (bytes : List UInt8) : Nat :=
  (bytes.takeWhile isBlankByte).foldl (fun c x => columnAfter x.toNat c) column

theorem lt_columnAfter (b column : Nat) : column < columnAfter b column := by
  unfold columnAfter
  split <;> omega

theorem columnsFrom_nil (column : Nat) : columnsFrom column [] = column := rfl

theorem columnsFrom_cons (column : Nat) (x : UInt8) (bytes : List UInt8) :
    columnsFrom column (x :: bytes)
      = if isBlankByte x then columnsFrom (columnAfter x.toNat column) bytes else column := by
  unfold columnsFrom
  rw [List.takeWhile_cons]
  split <;> rfl

/-- Tabs take eight columns each. -/
theorem columnsFrom_tabs (tabs k : Nat) {x : UInt8} (h : isBlankByte x = false)
    (bytes : List UInt8) :
    columnsFrom (8 * k) (List.replicate tabs 9 ++ x :: bytes) = 8 * (k + tabs) := by
  induction tabs generalizing k with
  | zero =>
    rw [List.replicate_zero, List.nil_append, columnsFrom_cons, h, if_neg Bool.false_ne_true,
      Nat.add_zero]
  | succ tabs ih =>
    have hafter : columnAfter (9 : UInt8).toNat (8 * k) = 8 * (k + 1) := by
      rw [columnAfter, if_neg (by decide)]
      omega
    rw [List.replicate_succ, List.cons_append, columnsFrom_cons, if_pos (by decide), hafter, ih]
    omega

/-- More bytes do not take columns away. -/
theorem columnsFrom_le_append (column : Nat) (bytes more : List UInt8) :
    columnsFrom column bytes ≤ columnsFrom column (bytes ++ more) := by
  induction bytes generalizing column with
  | nil =>
    rw [columnsFrom_nil, List.nil_append]
    induction more generalizing column with
    | nil => exact Nat.le_refl _
    | cons x more ih =>
      rw [columnsFrom_cons]
      split
      · exact Nat.le_trans (Nat.le_of_lt (lt_columnAfter ..)) (ih _)
      · exact Nat.le_refl _
  | cons x bytes ih =>
    rw [List.cons_append, columnsFrom_cons, columnsFrom_cons]
    split
    · exact ih _
    · exact Nat.le_refl _

/-- What stands behind a byte that is no blank does not count. -/
theorem columnsFrom_append_of_not_blank (column : Nat) {bytes more : List UInt8}
    (h : ∃ x ∈ bytes, isBlankByte x = false) :
    columnsFrom column (bytes ++ more) = columnsFrom column bytes := by
  induction bytes generalizing column with
  | nil =>
    obtain ⟨x, hx, -⟩ := h
    cases hx
  | cons y bytes ih =>
    rw [List.cons_append, columnsFrom_cons, columnsFrom_cons]
    split
    · rename_i hy
      apply ih
      obtain ⟨x, hx, hno⟩ := h
      rcases List.mem_cons.1 hx with rfl | hx
      · rw [hy] at hno
        cases hno
      · exact ⟨x, hx, hno⟩
    · rfl

/-- Nor does such a byte itself. -/
theorem columnsFrom_concat (column : Nat) (bytes : List UInt8) {x : UInt8}
    (h : isBlankByte x = false) : columnsFrom column (bytes ++ [x]) = columnsFrom column bytes := by
  induction bytes generalizing column with
  | nil => rw [List.nil_append, columnsFrom_cons, h, if_neg Bool.false_ne_true, columnsFrom_nil]
  | cons y bytes ih => rw [List.cons_append, columnsFrom_cons, columnsFrom_cons, ih]

namespace Text

variable (t : Text)

/-! ## 2. Lines -/

/-- The columns of the blanks at the start of a line, as far as they stand before `stop`. -/
def columnsTo (line stop : Nat) : Nat := columnsFrom 0 (t.bytesIn (t.lineStart line) stop)

/-- The columns of the blanks at the start of a line. -/
def columns (line : Nat) : Nat := columnsFrom 0 (t.lineBytes line)

/-- There is nothing on a line but blanks and line ends. -/
def IsWhite (line : Nat) : Prop :=
  ∀ x ∈ t.lineBytes line, isBlankByte x = true ∨ x = lf ∨ x = cr

instance (line : Nat) : Decidable (t.IsWhite line) := inferInstanceAs (Decidable (∀ x ∈ _, _))

theorem exists_mem_bytesIn {a b p : Nat} (ha : a ≤ p) (hb : p < b) (hp : p < t.size) :
    ∃ x ∈ t.bytesIn a b, x.toNat = t.byteAt p := by
  obtain ⟨x, hx, hbytes⟩ := t.bytesIn_cons hb hp
  refine ⟨x, ?_, hx⟩
  rw [← t.bytesIn_append ha (Nat.le_of_lt hb), hbytes]
  exact List.mem_append_right _ List.mem_cons_self

/-- Whether the byte at `p` is a blank or of a line end. -/
def IsWhiteAt (p : Nat) : Prop :=
  Indentation.isBlank (t.byteAt p) = true ∨ t.byteAt p = 10 ∨ t.byteAt p = 13

theorem isWhite_iff (line : Nat) :
    t.IsWhite line ↔ ∀ p, t.lineStart line ≤ p → p < t.lineStart (line + 1) → t.IsWhiteAt p := by
  have hbyte {x : UInt8} {p : Nat} (hx : x.toNat = t.byteAt p) :
      (isBlankByte x = true ∨ x = lf ∨ x = cr) ↔ t.IsWhiteAt p := by
    rw [IsWhiteAt, isBlankByte, hx, ← hx, ← UInt8.toNat_inj, ← UInt8.toNat_inj]
    rfl
  constructor
  · intro h p hp hnext
    obtain ⟨x, hmem, hx⟩ :=
      t.exists_mem_bytesIn hp hnext (Nat.lt_of_lt_of_le hnext (t.lineStart_le_size _))
    exact (hbyte hx).1 (h x hmem)
  · intro h x hmem
    obtain ⟨p, hp, hnext, -, hx⟩ := t.exists_of_mem_bytesIn hmem
    exact (hbyte hx.symm).2 (h p hp hnext)

/-- Bytes of line ends stand at the end of a line only. -/
theorem lineEnd_le_of_byteAt {line p : Nat} (hp : t.lineStart line ≤ p) (hsize : p < t.size)
    (h : t.byteAt p = 10 ∨ t.byteAt p = 13) : t.lineEnd line ≤ p := by
  refine Nat.le_of_not_lt fun hlt => ?_
  obtain ⟨x, hmem, hx⟩ := t.exists_mem_bytesIn hp hlt hsize
  obtain ⟨hlf, hcr⟩ := t.unbroken_body line
  rcases h with h | h
  · exact hlf (UInt8.toNat_inj.1 (hx.trans h : x.toNat = lf.toNat) ▸ hmem)
  · exact hcr (UInt8.toNat_inj.1 (hx.trans h : x.toNat = cr.toNat) ▸ hmem)

/-- There is nothing else there. -/
theorem byteAt_of_lineEnd_le {line p : Nat} (hp : t.lineEnd line ≤ p)
    (hnext : p < t.lineStart (line + 1)) : t.byteAt p = 10 ∨ t.byteAt p = 13 := by
  have hline : line < t.lastLine := by
    refine Nat.lt_of_not_le fun hle => ?_
    rw [lineEnd, if_pos (Or.inl hle)] at hp
    omega
  obtain ⟨x, hmem, hx⟩ :=
    t.exists_mem_bytesIn hp hnext (Nat.lt_of_lt_of_le hnext (t.lineStart_le_size _))
  have hends := t.bytesIn_lineEnd_mem hline
  have hbyte : x = lf ∨ x = cr := by
    simp only [terminators, List.mem_cons, List.not_mem_nil, or_false] at hends
    rcases hends with heq | heq | heq <;> rw [heq] at hmem
    · exact Or.inl (List.mem_singleton.1 hmem)
    · exact Or.inr (List.mem_singleton.1 hmem)
    · exact (List.mem_cons.1 hmem).symm.imp_left List.mem_singleton.1
  rw [← hx]
  rcases hbyte with rfl | rfl
  · exact Or.inl rfl
  · exact Or.inr rfl

/-! ## 3. The walk -/

/-- The walk counts the columns of the blanks that it goes over, and stops at the first byte
that is none. -/
theorem measure_spec {fuel pos : Nat} (h : pos + fuel ≤ t.size) (column : Nat) :
    (Indentation.measure t fuel pos column).1 = columnsFrom column (t.bytesIn pos (pos + fuel))
      ∧ pos ≤ (Indentation.measure t fuel pos column).2
      ∧ (Indentation.measure t fuel pos column).2 ≤ pos + fuel
      ∧ (∀ p, pos ≤ p → p < (Indentation.measure t fuel pos column).2 →
        Indentation.isBlank (t.byteAt p) = true)
      ∧ ((Indentation.measure t fuel pos column).2 < pos + fuel →
        Indentation.isBlank (t.byteAt (Indentation.measure t fuel pos column).2) = false) := by
  induction fuel generalizing pos column with
  | zero =>
    rw [Indentation.measure, Nat.add_zero, bytesIn_self]
    exact ⟨rfl, Nat.le_refl _, Nat.le_refl _, fun p _ _ => by omega,
      fun hlt => absurd hlt (Nat.lt_irrefl pos)⟩
  | succ fuel ih =>
    obtain ⟨x, hx, hbytes⟩ :=
      t.bytesIn_cons (show pos < pos + (fuel + 1) by omega) (show pos < t.size by omega)
    have hblank : isBlankByte x = Indentation.isBlank (t.byteAt pos) := by rw [isBlankByte, hx]
    rw [hbytes, columnsFrom_cons, Indentation.measure, hblank, hx]
    split
    · rename_i hb
      obtain ⟨hcolumn, hpos, hle, hbefore, hat⟩ :=
        ih (show pos + 1 + fuel ≤ t.size by omega) (columnAfter (t.byteAt pos) column)
      rw [show pos + 1 + fuel = pos + (fuel + 1) by omega] at hcolumn hle hat
      refine ⟨hcolumn, by omega, hle, fun p hp hlt => ?_, hat⟩
      rcases Nat.eq_or_lt_of_le hp with rfl | hp
      · exact hb
      · exact hbefore p hp hlt
    · rename_i hb
      refine ⟨rfl, Nat.le_refl _, by omega, fun p _ _ => by omega, fun _ => ?_⟩
      simpa using hb

/-- A line that starts before the end of the text has a byte. -/
theorem lineStart_lt_lineStart_succ {line : Nat} (h : t.lineStart line < t.size) :
    t.lineStart line < t.lineStart (line + 1) := by
  have hline : line ≤ t.lastLine := by
    refine Nat.le_of_not_lt fun hlt => ?_
    rw [t.lineStart_of_lastLine_lt hlt] at h
    exact Nat.lt_irrefl _ h
  have hnext := t.lt_lineStart_lineOf_succ h
  rwa [t.lineOf_lineStart hline] at hnext

theorem lineBytes_eq_nil {line : Nat} (h : t.lineStart line = t.size) : t.lineBytes line = [] := by
  have := t.lineStart_le_size (line + 1)
  have := t.lineStart_mono (Nat.le_add_right line 1)
  rw [lineBytes, show t.lineStart (line + 1) = t.lineStart line by omega, bytesIn_self]

/-- Where the walk over a line stops, and what it counts. -/
theorem walk_line (line : Nat) :
    ∃ pos, (Indentation.level t line).level = FoldLevel.base + t.columnsTo line (lineStop t line)
      ∧ (t.lineStart line < t.size →
        (Indentation.level t line).white
            = (Indentation.isBlank (t.byteAt pos) || t.byteAt pos == 10 || t.byteAt pos == 13)
          ∧ t.lineStart line ≤ pos ∧ pos ≤ lineStop t line
          ∧ (∀ p, t.lineStart line ≤ p → p < pos → Indentation.isBlank (t.byteAt p) = true)
          ∧ (pos < lineStop t line → Indentation.isBlank (t.byteAt pos) = false)) := by
  have hnext := t.lineStart_le_size (line + 1)
  have hstart := t.lineStart_le_size line
  have hfuel : t.lineStart line + (lineStop t line - t.lineStart line) ≤ t.size := by
    unfold lineStop
    omega
  obtain ⟨hcolumn, hpos, hle, hbefore, hat⟩ := t.measure_spec hfuel 0
  refine ⟨(Indentation.measure t (lineStop t line - t.lineStart line) (t.lineStart line) 0).2,
    ?_, fun hlt => ?_⟩
  · have hlevel : (Indentation.level t line).level = FoldLevel.base
        + (Indentation.measure t (lineStop t line - t.lineStart line) (t.lineStart line) 0).1 := rfl
    rw [hlevel, hcolumn]
    rcases Nat.lt_or_ge (t.lineStart line) t.size with hlt | hge
    · have := t.lineStart_lt_lineStart_succ hlt
      rw [columnsTo, Nat.add_sub_cancel' (by unfold lineStop; omega)]
    · have hstop : lineStop t line ≤ t.lineStart line := by
        unfold lineStop
        omega
      rw [columnsTo, Nat.sub_eq_zero_of_le hstop, Nat.add_zero, bytesIn_self, bytesIn,
        Array.extract_empty_of_stop_le_start hstop]
  · have := t.lineStart_lt_lineStart_succ hlt
    rw [Nat.add_sub_cancel' (by unfold lineStop; omega)] at hle hat
    refine ⟨?_, hpos, hle, hbefore, hat⟩
    have hne : ¬ t.lineStart line = t.size := Nat.ne_of_lt hlt
    simp only [Indentation.level, hne, decide_false, Bool.false_or]
    rfl

/-! ## 4. What is measured -/

theorem level_eq (line : Nat) :
    (Indentation.level t line).level = FoldLevel.base + t.columnsTo line (lineStop t line) := by
  obtain ⟨_, hlevel, -⟩ := t.walk_line line
  exact hlevel

/-- Lines are marked white exactly if they are. -/
theorem white_level_iff (line : Nat) :
    (Indentation.level t line).white = true ↔ t.IsWhite line := by
  obtain ⟨pos, -, hwalk⟩ := t.walk_line line
  rcases Nat.lt_or_ge (t.lineStart line) t.size with hlt | hge
  · obtain ⟨hwhite, hpos, hle, hbefore, hat⟩ := hwalk hlt
    have hnext := t.lineStart_lt_lineStart_succ hlt
    have hsize := t.lineStart_le_size (line + 1)
    have hat_pos : (Indentation.level t line).white = true ↔ t.IsWhiteAt pos := by
      rw [hwhite, IsWhiteAt]
      simp [or_assoc]
    unfold lineStop at hle hat
    rw [hat_pos, isWhite_iff]
    constructor
    · intro hw p hp hp'
      rcases Nat.lt_or_ge p pos with hlt' | hge
      · exact Or.inl (hbefore p hp hlt')
      · rcases hw with hblank | hbreak
        · -- the walk went up to the last byte, and that is a blank too
          have hlast : ¬ pos < t.lineStart (line + 1) - 1 := fun hlt' => by
            rw [hat hlt'] at hblank
            cases hblank
          rw [show p = pos by omega]
          exact Or.inl hblank
        · have hend := t.lineEnd_le_of_byteAt hpos (by omega) hbreak
          exact Or.inr (t.byteAt_of_lineEnd_le (Nat.le_trans hend hge) hp')
    · intro h
      exact h pos hpos (by omega)
  · have heq : t.lineStart line = t.size := Nat.le_antisymm (t.lineStart_le_size line) hge
    have hwhite : (Indentation.level t line).white = true := by simp [Indentation.level, heq]
    simp [hwhite, IsWhite, t.lineBytes_eq_nil heq]

/-- The last byte of a line is not looked at, but adds no more than it is. -/
theorem columnsTo_lineStop_le (line : Nat) :
    t.columnsTo line (lineStop t line) ≤ t.columns line := by
  unfold columnsTo columns lineBytes lineStop
  rcases Nat.lt_or_ge (t.lineStart line) (t.lineStart (line + 1)) with hlt | hge
  · rw [← t.bytesIn_append (show t.lineStart line ≤ t.lineStart (line + 1) - 1 by omega)
      (Nat.sub_le (t.lineStart (line + 1)) 1)]
    exact columnsFrom_le_append ..
  · rw [bytesIn, Array.extract_empty_of_stop_le_start (Nat.le_trans (Nat.sub_le _ 1) hge)]
    exact Nat.zero_le _

/-- What is measured of a line that is not white are its columns. -/
theorem columnsTo_lineStop_of_not_isWhite {line : Nat} (h : ¬ t.IsWhite line) :
    t.columnsTo line (lineStop t line) = t.columns line := by
  have hlt : t.lineStart line < t.size := by
    refine Nat.lt_of_not_le fun hge => h ?_
    have heq : t.lineStart line = t.size := Nat.le_antisymm (t.lineStart_le_size line) hge
    simp [IsWhite, t.lineBytes_eq_nil heq]
  have hnext := t.lineStart_lt_lineStart_succ hlt
  have hsize := t.lineStart_le_size (line + 1)
  obtain ⟨x, hx, hlast⟩ := t.bytesIn_cons (show lineStop t line < t.lineStart (line + 1) by
    unfold lineStop; omega) (show lineStop t line < t.size by unfold lineStop; omega)
  have hstop : lineStop t line + 1 = t.lineStart (line + 1) := by
    unfold lineStop
    omega
  rw [hstop, bytesIn_self] at hlast
  have hsplit : t.lineBytes line = t.bytesIn (t.lineStart line) (lineStop t line) ++ [x] := by
    rw [lineBytes, ← hlast, t.bytesIn_append (by omega) (by omega)]
  rw [columns, hsplit]
  cases hblank : isBlankByte x with
  | false => exact (columnsFrom_concat 0 _ hblank).symm
  | true =>
    -- the line holds something else, and that stands before its last byte
    apply (columnsFrom_append_of_not_blank 0 _).symm
    simp only [IsWhite, hsplit, List.forall_mem_append, List.forall_mem_singleton, hblank,
      true_or, and_true, Classical.not_forall] at h
    obtain ⟨y, hy, hno⟩ := h
    exact ⟨y, hy, by simpa using fun hyb => hno (Or.inl hyb)⟩

end Text

end Restyle
