/-
Restyle.Indentation — how far a line is indented.

A space counts one column and a tab goes to the next multiple of eight.
A line is white if nothing but white space stands on it; so is the empty
line at the end of a text.
-/
import Restyle.FoldLevel
import Restyle.Text

namespace Restyle.Indentation

/-- A space or a tab. -/
def isBlank (b : Nat) : Bool := b == ' '.toNat || b == '\t'.toNat

/-- The column after a blank at `column`. -/
def columnAfter (b column : Nat) : Nat :=
  if b = ' '.toNat then column + 1 else (column / 8 + 1) * 8

/-- Column and position of the first byte from `pos` on that is no blank, at most
`fuel` bytes ahead. -/
def measure (t : Text) : Nat → Nat → Nat → Nat × Nat
  | 0, pos, column => (column, pos)
  | fuel + 1, pos, column =>
    if isBlank (t.byteAt pos) then measure t fuel (pos + 1) (columnAfter (t.byteAt pos) column)
    else (column, pos)

/-- One byte before the next line starts: where a line is no longer looked at. -/
def lineStop (t : Text) (line : Nat) : Nat := t.lineStart (line + 1) - 1

/-- The level that indentation gives a line. -/
def level (t : Text) (line : Nat) : FoldLevel :=
  let start := t.lineStart line
  let (column, pos) := measure t (lineStop t line - start) start 0
  let b := t.byteAt pos
  { FoldLevel.plain (FoldLevel.base + column) with
    white := start = t.size || isBlank b || b == '\n'.toNat || b == '\r'.toNat }

end Restyle.Indentation
