/-
Restyle.Buffer.WellFormed — the tables of a buffer fit its text.

There is one style per byte, and one line state and one level per line.
A buffer of a text starts so (`wellFormed_ofText`), and every operation
keeps it, edits of any range included (`WellFormed.insert`,
`WellFormed.delete`).
-/
import Restyle.Buffer
import Restyle.Text.LineTable

namespace Restyle

/-! ## Tables -/

theorem size_fill {α : Type} (x : α) (start count : Nat) (xs : Array α) :
    (fill x start count xs).size = xs.size := by
  induction count generalizing start xs with
  | zero => rfl
  | succ n ih => simp [fill, ih]

theorem size_insertAt {α : Type} {xs : Array α} {i : Nat} (h : i ≤ xs.size) (more : Array α) :
    (insertAt xs i more).size = xs.size + more.size := by
  simp [insertAt]; omega

theorem size_removeRange {α : Type} {xs : Array α} {i j : Nat} (h : i ≤ j) (h' : j ≤ xs.size) :
    (removeRange xs i j).size = xs.size - (j - i) := by
  simp [removeRange]; omega

/-! ## Buffers -/

namespace Buffer

/-- The tables fit the text. -/
structure WellFormed (b : Buffer) : Prop where
  styles_size : b.styles.size = b.text.size
  lineStates_size : b.lineStates.size = b.text.lineCount
  levels_size : b.levels.size = b.text.lineCount

theorem wellFormed_ofText (t : Text) : (ofText t).WellFormed where
  styles_size := Array.size_replicate
  lineStates_size := Array.size_replicate
  levels_size := Array.size_replicate

namespace WellFormed

variable {b : Buffer} (h : b.WellFormed)
include h

theorem setLineState (line : Nat) (state : Int) : (b.setLineState line state).WellFormed :=
  { h with lineStates_size := Array.size_setIfInBounds.trans h.lineStates_size }

theorem setLevel (line : Nat) (level : Int) : (b.setLevel line level).WellFormed :=
  { h with levels_size := Array.size_setIfInBounds.trans h.levels_size }

theorem clearLog : b.clearLog.WellFormed := { h with }

theorem paint (s : Span) : (b.paint s).WellFormed := by
  unfold Buffer.paint
  dsimp only
  split
  · exact h
  · exact { h with styles_size := (size_fill ..).trans h.styles_size }

/-- What every step keeps, all steps together keep. -/
theorem foldl {α : Type} {f : Buffer → α → Buffer}
    (step : ∀ {b : Buffer}, b.WellFormed → ∀ x, (f b x).WellFormed) (xs : List α) :
    (xs.foldl f b).WellFormed := by
  induction xs generalizing b with
  | nil => exact h
  | cons x rest ih => exact ih (step h x)

theorem restyle (r : Styling) : (b.restyle r).WellFormed := by
  unfold Buffer.restyle
  rw [← Array.foldl_toList, ← Array.foldl_toList]
  exact (h.foldl WellFormed.paint _).foldl (fun h p => h.setLineState p.1 p.2) _

theorem setLevels (levels : List (Nat × FoldLevel)) : (b.setLevels levels).WellFormed :=
  h.foldl (fun h p => h.setLevel p.1 p.2.pack) levels

theorem insert (pos : Nat) (more : Array UInt8) : (b.insert pos more).WellFormed := by
  have lines := b.text.lineCount_le_insert (min pos b.size) more
  have place : min pos b.size ≤ b.text.size := Nat.min_le_right ..
  refine ⟨?_, ?_, ?_⟩
  · show (insertAt _ _ _).size = _
    rw [size_insertAt (by rw [h.styles_size]; exact place), h.styles_size, Array.size_replicate]
    exact (Text.size_insert _ place _).symm
  · show (insertAt _ _ _).size = (b.text.insert (min pos b.size) more).lineCount
    rw [size_insertAt (Nat.min_le_right ..), h.lineStates_size, Array.size_replicate]
    omega
  · show (insertAt _ _ _).size = (b.text.insert (min pos b.size) more).lineCount
    rw [size_insertAt (by rw [h.levels_size, h.lineStates_size]; exact Nat.min_le_right ..),
      h.levels_size, Array.size_replicate]
    omega

theorem delete (start stop : Nat) : (b.delete start stop).WellFormed := by
  unfold Buffer.delete
  dsimp only
  split
  · exact h
  · have order : min start (min stop b.size) ≤ min stop b.size := Nat.min_le_right ..
    have inside : min stop b.size ≤ b.text.size := Nat.min_le_right ..
    have fewer := b.text.lineCount_delete_le order
    have kept := b.text.lineOf_lt_lineCount_delete order inside
    refine ⟨?_, ?_, ?_⟩
    · show (removeRange _ _ _).size = _
      rw [size_removeRange order (by rw [h.styles_size]; exact inside), h.styles_size]
      exact (Text.size_delete _ order inside).symm
    · show (removeRange _ _ _).size = (b.text.delete _ _).lineCount
      rw [size_removeRange (by rw [h.lineStates_size]; omega) (Nat.min_le_right ..),
        h.lineStates_size]
      omega
    · show (removeRange _ _ _).size = (b.text.delete _ _).lineCount
      rw [size_removeRange (by rw [h.lineStates_size]; omega)
        (by rw [h.levels_size, h.lineStates_size]; exact Nat.min_le_right ..), h.levels_size,
        h.lineStates_size]
      omega

end WellFormed

end Buffer

end Restyle
