/-
Restyle.FoldLevel — the fold level of a line and its packed form.

Hosts store one signed 32-bit number per line. Its low twelve bits hold
the level, bit 12 marks a line of white space only, bit 13 a line that
opens a fold, and the high half the level at which the next line starts.
Levels outside their field lose their high bits when packed.
-/

namespace Restyle

/-- Fold level of one line. -/
structure FoldLevel where
  /-- Nesting level; `FoldLevel.base` is the outermost. -/
  level : Int
  /-- Level at which the next line starts, 0 if not recorded. -/
  next : Int
  /-- The line holds white space only. -/
  white : Bool
  /-- The line opens a fold. -/
  header : Bool
  deriving DecidableEq, Repr, Inhabited

namespace FoldLevel

/-- The level of unindented code. Packed with nothing else recorded it is the same number. -/
def base : Int := 1024

/-- A level with nothing else recorded. -/
def plain (level : Int) : FoldLevel := ⟨level, 0, false, false⟩

/-- The packed form: fields in their places, the high half wrapping. -/
def pack (l : FoldLevel) : Int :=
  l.level % 4096 + (if l.white then 4096 else 0) + (if l.header then 8192 else 0)
    + (l.next * 65536).bmod 0x100000000

/-- Reads a packed form; the two bits between the flags and the high half say nothing. -/
def unpack (raw : Int) : FoldLevel :=
  ⟨raw % 4096, raw / 65536, raw / 4096 % 2 = 1, raw / 8192 % 2 = 1⟩

/-- How far the level lies below the outermost. -/
def depth (l : FoldLevel) : Int := l.level - base

end FoldLevel

end Restyle
