/-
Restyle.Proofs.Buffer.Editing — what an edit leaves as it was.

An edit at `pos` keeps what stands before it: the bytes, their tokens, and
the states and levels of the lines up to the one that holds `pos`
(`beginsAs_insert`, `beginsAs_delete`). The byte before `pos` may become
or stop being the last of a line terminator, and only that one. So the
lines of the positions further left start where they did
(`Text.BeginsAs.lineStart_lineOf`), and up to such a line start the
buffers are the same (`BeginsAs.sameTo`).
-/
import Restyle.Proofs.Buffer.Levels
import Restyle.Proofs.Text.Characters

namespace Restyle

/-! ## 1. Tables -/

/-- What is put behind the first entries does not change them. -/
theorem getElem?_extract_append {α : Type} {xs : Array α} {i j : Nat} (hj : j < i)
    (hi : i ≤ xs.size) (ys : Array α) : (xs.extract 0 i ++ ys)[j]? = xs[j]? := by
  have hs : j < (xs.extract 0 i).size := by simp; omega
  rw [Array.getElem?_append_left hs, Array.getElem?_extract, Nat.zero_add, if_pos (by omega)]

theorem getElem?_insertAt {α : Type} {xs : Array α} {i j : Nat} (hj : j < i) (hi : i ≤ xs.size)
    (more : Array α) : (insertAt xs i more)[j]? = xs[j]? := by
  unfold insertAt
  rw [Array.append_assoc, getElem?_extract_append hj hi]

theorem getElem?_removeRange {α : Type} {xs : Array α} {i j : Nat} (hj : j < i) (hi : i ≤ xs.size)
    (stop : Nat) : (removeRange xs i stop)[j]? = xs[j]? := by
  unfold removeRange
  rw [getElem?_extract_append hj hi]

/-! ## 2. Texts -/

namespace Text

/-- The texts have the same first `n` bytes. -/
structure BeginsAs (n : Nat) (t t' : Text) : Prop where
  encoding : t'.encoding = t.encoding
  le : n ≤ t.size
  le' : n ≤ t'.size
  bytes : ∀ p < n, t'.bytes[p]? = t.bytes[p]?

namespace BeginsAs

variable {n p k : Nat} {t t' : Text}

theorem refl (h : n ≤ t.size) : BeginsAs n t t := ⟨rfl, h, h, fun _ _ => rfl⟩

variable (h : BeginsAs n t t')
include h

theorem byteAt (hp : p < n) : t'.byteAt p = t.byteAt p := by
  simp [Text.byteAt, Array.getD_eq_getD_getElem?, h.bytes p hp]

theorem breaksAfter (hp : p + 1 < n) : t'.breaksAfter p = t.breaksAfter p := by
  simp only [Text.breaksAfter, h.byteAt hp, h.byteAt (Nat.lt_of_succ_lt hp)]

theorem lineOf (hp : p < n) : t'.lineOf p = t.lineOf p := by
  induction p with
  | zero => rw [t.lineOf_zero, t'.lineOf_zero]
  | succ p ih => rw [t.lineOf_succ, t'.lineOf_succ, ih (by omega), h.breaksAfter hp]

/-- The line of a position before the last of the bytes starts at the same place. -/
theorem lineStart_lineOf (hp : p < n) :
    t'.lineStart (t'.lineOf p) = t.lineStart (t.lineOf p) := by
  have hle := t.lineStart_lineOf_le p
  have hle' := t'.lineStart_lineOf_le p
  have hline := t.lineOf_le_lastLine p
  have hline' := t'.lineOf_le_lastLine p
  have hsame := h.lineOf (Nat.lt_of_le_of_lt hle hp)
  have hsame' := h.lineOf (Nat.lt_of_le_of_lt hle' hp)
  rw [t.lineOf_lineStart hline] at hsame
  rw [t'.lineOf_lineStart hline', h.lineOf hp] at hsame'
  apply Nat.le_antisymm
  · apply (t'.lineStart_le_iff hline' _).2
    exact Nat.le_of_eq (by rw [hsame, h.lineOf hp])
  · apply (t.lineStart_le_iff hline _).2
    exact Nat.le_of_eq (by rw [h.lineOf hp, ← hsame'])

theorem sameTo (hk : k ∈ t.starts) (hpos : 0 < k) (hlt : k < n) : SameTo k t t' where
  encoding := h.encoding
  bytes p hp := h.bytes p (by omega)
  stop := t.isStop_of_mem_starts hk hpos
  stop' := by
    apply t'.isStop_of_mem_starts _ hpos
    rw [t'.mem_starts_iff, h.breaksAfter (by omega), ← t.mem_starts_iff]
    exact hk

end BeginsAs

theorem beginsAs_insert {t : Text} {pos : Nat} (h : pos ≤ t.size) (more : Array UInt8) :
    BeginsAs pos t (t.insert pos more) where
  encoding := rfl
  le := h
  le' := by
    rw [t.size_insert h]
    omega
  bytes p hp := by
    unfold Text.insert ofBytes
    rw [Array.append_assoc, getElem?_extract_append hp h]

theorem beginsAs_delete {t : Text} {start stop : Nat} (h : start ≤ stop) (h' : stop ≤ t.size) :
    BeginsAs start t (t.delete start stop) where
  encoding := rfl
  le := Nat.le_trans h h'
  le' := by
    rw [t.size_delete h h']
    omega
  bytes p hp := by
    unfold Text.delete ofBytes
    rw [getElem?_extract_append hp (Nat.le_trans h h')]

end Text

/-! ## 3. Buffers -/

namespace Buffer

/-- The buffers hold the same before position `n`, and for the lines up to its own. -/
structure BeginsAs (n : Nat) (b b' : Buffer) : Prop where
  text : Text.BeginsAs n b.text b'.text
  token : ∀ p < n, b'.tokenAt p = b.tokenAt p
  state : ∀ line ≤ b.text.lineOf n, b'.lineState line = b.lineState line
  level : ∀ line ≤ b.text.lineOf n, b'.level line = b.level line

/-- The buffers hold the same before the line start `k`. -/
structure SameTo (k : Nat) (b b' : Buffer) : Prop where
  text : Text.SameTo k b.text b'.text
  start : k ∈ b.text.starts
  token : ∀ p < k, b'.tokenAt p = b.tokenAt p
  state : ∀ line < b.text.lineOf k, b'.lineState line = b.lineState line
  level : ∀ line < b.text.lineOf k, b'.level line = b.level line

theorem SameTo.pos {k : Nat} {b b' : Buffer} (h : SameTo k b b') : 0 < k := by
  rcases h.text.stop with rfl | ⟨hpos, -⟩
  · exact Nat.succ_pos _
  · exact hpos

theorem SameTo.start' {k : Nat} {b b' : Buffer} (h : SameTo k b b') : k ∈ b'.text.starts := by
  rw [b'.text.mem_starts_iff, h.text.breaksAfter (Nat.sub_one_lt_of_lt h.pos),
    ← b.text.mem_starts_iff]
  exact h.start

theorem BeginsAs.sameTo {n k : Nat} {b b' : Buffer} (h : BeginsAs n b b')
    (hk : k ∈ b.text.starts) (hpos : 0 < k) (hlt : k < n) : SameTo k b b' where
  text := h.text.sameTo hk hpos hlt
  start := hk
  token p hp := h.token p (by omega)
  state line hline := h.state line (by have := b.text.lineOf_mono (Nat.le_of_lt hlt); omega)
  level line hline := h.level line (by have := b.text.lineOf_mono (Nat.le_of_lt hlt); omega)

variable {b : Buffer}

theorem BeginsAs.refl {n : Nat} (h : n ≤ b.size) : BeginsAs n b b :=
  ⟨.refl h, fun _ _ => rfl, fun _ _ => rfl, fun _ _ => rfl⟩

theorem beginsAs_insert (hb : b.WellFormed) {pos : Nat} (h : pos ≤ b.size) (more : Array UInt8) :
    BeginsAs pos b (b.insert pos more) := by
  have hmin : min pos b.size = pos := Nat.min_eq_left h
  have hline : b.text.lineOf pos + 1 ≤ b.lineStates.size := by
    rw [hb.lineStates_size, b.text.lineCount_eq_lastLine]
    exact Nat.succ_le_succ (b.text.lineOf_le_lastLine pos)
  have hlevels : b.levels.size = b.lineStates.size := hb.levels_size.trans hb.lineStates_size.symm
  unfold Buffer.insert
  simp only [hmin, Nat.min_eq_left hline]
  refine ⟨Text.beginsAs_insert h more, ?_, ?_, ?_⟩
  · intro p hp
    have hstyles : pos ≤ b.styles.size := by rw [hb.styles_size]; exact h
    simp only [tokenAt, Array.getD_eq_getD_getElem?, getElem?_insertAt hp hstyles]
  · intro line hle
    simp only [lineState, Array.getD_eq_getD_getElem?,
      getElem?_insertAt (Nat.lt_succ_of_le hle) hline]
  · intro line hle
    rw [← hlevels] at hline
    simp only [level, Array.getD_eq_getD_getElem?,
      getElem?_insertAt (Nat.lt_succ_of_le hle) hline]

theorem beginsAs_delete (hb : b.WellFormed) {start : Nat} (h : start ≤ b.size) (stop : Nat) :
    BeginsAs start b (b.delete start stop) := by
  unfold Buffer.delete
  dsimp only
  split
  · exact .refl h
  · rename_i hne
    have hmin : min start (min stop b.size) = start := by omega
    have hline : b.text.lineOf start + 1 ≤ b.lineStates.size := by
      rw [hb.lineStates_size, b.text.lineCount_eq_lastLine]
      exact Nat.succ_le_succ (b.text.lineOf_le_lastLine start)
    have hlevels : b.levels.size = b.lineStates.size :=
      hb.levels_size.trans hb.lineStates_size.symm
    simp only [hmin, Nat.min_eq_left hline]
    refine ⟨Text.beginsAs_delete (by omega) (Nat.min_le_right ..), ?_, ?_, ?_⟩
    · intro p hp
      have hstyles : start ≤ b.styles.size := by rw [hb.styles_size]; exact h
      simp only [tokenAt, Array.getD_eq_getD_getElem?, getElem?_removeRange hp hstyles]
    · intro line hle
      simp only [lineState, Array.getD_eq_getD_getElem?,
        getElem?_removeRange (Nat.lt_succ_of_le hle) hline]
    · intro line hle
      rw [← hlevels] at hline
      simp only [level, Array.getD_eq_getD_getElem?,
        getElem?_removeRange (Nat.lt_succ_of_le hle) hline]

/-! ## 4. Buffers that nothing folds -/

/-- All levels are the base level. -/
def Unfolded (b : Buffer) : Prop := ∀ level ∈ b.levels, level = FoldLevel.base

theorem Unfolded.level (h : b.Unfolded) (line : Nat) : b.level line = FoldLevel.base := by
  rw [Buffer.level, Array.getD_eq_getD_getElem?]
  cases hl : b.levels[line]? with
  | none => rfl
  | some level => exact h level (Array.mem_of_getElem? hl)

theorem unfolded_ofText (t : Text) : (ofText t).Unfolded :=
  fun _ h => Array.eq_of_mem_replicate h

theorem mem_of_mem_extract {α : Type} {xs : Array α} {x : α} {i j : Nat}
    (h : x ∈ xs.extract i j) : x ∈ xs := by
  obtain ⟨k, hk, rfl⟩ := Array.mem_extract_iff_getElem.1 h
  exact Array.getElem_mem _

theorem Unfolded.insert (h : b.Unfolded) (pos : Nat) (more : Array UInt8) :
    (b.insert pos more).Unfolded := by
  intro level hl
  rcases Array.mem_append.1 hl with hl | hl
  · rcases Array.mem_append.1 hl with hl | hl
    · exact h level (mem_of_mem_extract hl)
    · exact Array.eq_of_mem_replicate hl
  · exact h level (mem_of_mem_extract hl)

theorem Unfolded.delete (h : b.Unfolded) (start stop : Nat) : (b.delete start stop).Unfolded := by
  unfold Buffer.delete
  dsimp only
  split
  · exact h
  · intro level hl
    rcases Array.mem_append.1 hl with hl | hl
    · exact h level (mem_of_mem_extract hl)
    · exact h level (mem_of_mem_extract hl)

theorem Unfolded.setLevel (h : b.Unfolded) (line : Nat) :
    (b.setLevel line FoldLevel.base).Unfolded := by
  intro level hl
  rcases Array.mem_or_eq_of_mem_setIfInBounds hl with hl | hl
  · exact h level hl
  · exact hl

end Buffer

end Restyle
