/-
Restyle.Haskell.Folding — fold levels of Haskell by indentation.

A line of code has the level of its indentation, and opens a fold if the
next line of code is indented further. Blank lines, comments and
preprocessor lines (asides) in between belong to one or the other: seen
from the next line of code backwards, they take its level until one is
indented deeper, and from there on the greater of both levels.

With import folding the lines of a block of imports stand one level
below its first; that line is remembered between calls.
-/
import Restyle.Buffer
import Restyle.Haskell.Settings
import Restyle.Indentation

namespace Restyle.Haskell.Folding

/-! ## Kinds of lines -/

/-- The bytes of `import`. -/
def importWord : List Nat := ['i', 'm', 'p', 'o', 'r', 't'].map Char.toNat

/-- Whether import folding is on and a line starts with `import`. -/
def isImport (o : Options) (t : Text) (line : Nat) : Bool :=
  o.foldImports && importWord.zipIdx.all fun (b, i) => t.byteAt (t.lineStart line + i) == b

/-- Whether the bytes from `pos` on are blank up to a comment or directive, looking
at no more than `fuel` of them. -/
def blankToAside (b : Buffer) : Nat → Nat → Bool
  | 0, _ => true
  | fuel + 1, pos =>
    if (b.tokenAt pos).isComment || b.tokenAt pos == .directive then true
    else if Indentation.isBlank (b.text.byteAt pos) then blankToAside b fuel (pos + 1)
    else false

/-- Whether a line holds nothing but blanks before a comment, a directive or its end. -/
def isAside (b : Buffer) (line : Nat) : Bool :=
  let start := b.text.lineStart line
  blankToAside b (Indentation.lineStop b.text line - start) start

/-- The level of a line's indentation. -/
def indent (b : Buffer) (line : Nat) : FoldLevel := Indentation.level b.text line

/-- Whether a line holds code. -/
def isCode (b : Buffer) (line : Nat) : Bool := !(indent b line).white && !isAside b line

/-! ## Blocks of imports -/

/-- Counts an import line in: the first one starts the block, and any other is a later
line of it. -/
def countImport (first : Option Nat) (line : Nat) : Option Nat × Bool :=
  match first with
  | none => (some line, false)
  | some f => (some f, f != line)

/-- One level deeper. -/
def deeper (l : FoldLevel) : FoldLevel := { l with level := l.level + 1 }

/-- The level of a line in a block of imports: its own, or one deeper on a later line of
the block. -/
def withImport (o : Options) (t : Text) (first : Option Nat) (line : Nat) (l : FoldLevel) :
    Option Nat × FoldLevel :=
  if isImport o t line then
    let (first, later) := countImport first line
    (first, if later then deeper l else l)
  else (first, l)

/-! ## One line of code and the asides after it -/

/-- Where folding stands: a line, its level, and the first line of the imports seen. -/
structure State where
  line : Nat
  level : FoldLevel
  firstImport : Option Nat
  deriving DecidableEq, Repr

/-- The next line that is not to be skipped from `line` on, with its level; the last line
never is. At most `fuel` lines are skipped. -/
def skipAsides (b : Buffer) : Nat → Nat → FoldLevel → Nat × FoldLevel
  | 0, line, l => (line, l)
  | fuel + 1, line, l =>
    if line < b.text.lastLine && (l.white || isAside b line) then
      skipAsides b fuel (line + 1) (indent b (line + 1))
    else (line, l)

/-- What to assume of the line after one of level `l`, before skipping: a blank one has
the level before it. -/
def levelAfter (b : Buffer) (line : Nat) (l : FoldLevel) : FoldLevel :=
  let after := if line + 1 ≤ b.text.lastLine then indent b (line + 1) else l
  if after.white then { FoldLevel.plain l.level with white := true } else after

/-- The next line to fold after `s`, with its level and what is known of imports. -/
def next (o : Options) (b : Buffer) (s : State) : State :=
  let (line, l) :=
    skipAsides b (b.text.lastLine - (s.line + 1)) (s.line + 1) (levelAfter b s.line s.level)
  let (firstImport, l) := withImport o b.text s.firstImport line l
  { line, level := l, firstImport }

/-- Levels of the asides in `lines`, last one first, before a line of level `after`; from
the first that is deeper on they have level `before`. -/
def asideLevels (o : Options) (b : Buffer) (after before : Int) :
    Int → List Nat → List (Nat × FoldLevel)
  | _, [] => []
  | level, line :: lines =>
    let own := indent b line
    let deep := after < own.level && (o.foldCompact || isCode b line)
    let level := if deep then before else level
    (line, { FoldLevel.plain level with white := o.foldCompact && own.white })
      :: asideLevels o b after before level lines

/-- The level of the line of code itself. -/
def ownLevel (o : Options) (s after : State) : FoldLevel :=
  { s.level with
    header := !s.level.white && s.level.level < after.level.level
    white := o.foldCompact && s.level.white }

/-- Everything that is decided between one line of code and the next. -/
def levelsBetween (o : Options) (b : Buffer) (s after : State) : List (Nat × FoldLevel) :=
  let asides := (List.range' (s.line + 1) (after.line - (s.line + 1))).reverse
  let before := max s.level.level after.level.level
  asideLevels o b after.level.level before after.level.level asides
    ++ [(s.line, ownLevel o s after)]

/-! ## The run -/

/-- Folds from one line of code to the next up to line `last`, at most `fuel` times. -/
def run (o : Options) (b : Buffer) (last : Nat) : Nat → State → List (Nat × FoldLevel) × State
  | 0, s => ([], s)
  | fuel + 1, s =>
    if s.line ≤ last then
      let after := next o b s
      let (levels, s') := run o b last fuel after
      (levelsBetween o b s after ++ levels, s')
    else ([], s)

/-- The nearest line of code before a line, or the first line. -/
def codeBefore (b : Buffer) : Nat → Nat
  | 0 => 0
  | line + 1 => if isCode b line then line else codeBefore b line

/-- The last line that a range reaches. -/
def lastLineOf (t : Text) (start length : Nat) : Nat :=
  if start + length = t.size then t.lineOf (start + length) else t.lineOf (start + length - 1)

/-- Where folding a range starts: at the line of code before it, so that the lines in
between are decided again. A first import at or after it is forgotten. -/
def start (o : Options) (b : Buffer) (firstImport : Option Nat) (pos : Nat) : State :=
  let line := codeBefore b (b.text.lineOf pos)
  let firstImport := firstImport.filter (· < line)
  let (firstImport, l) := withImport o b.text firstImport line (indent b line)
  { line, level := l, firstImport }

/-- The levels of `length` bytes from `pos` and the first import line to remember. -/
def levels (o : Options) (b : Buffer) (firstImport : Option Nat) (pos length : Nat) :
    List (Nat × FoldLevel) × Option Nat :=
  if o.fold then
    let last := min b.text.lastLine (lastLineOf b.text pos length)
    let s := start o b firstImport pos
    let (levels, s) := run o b last (last + 1 - s.line) s
    (levels, s.firstImport)
  else ([], firstImport)

end Restyle.Haskell.Folding
