/-
Restyle.R.Folding — fold levels of R by braces.

Every brace that is styled as an operator changes the level for what
follows. A line has the level at its start and also records the level at
its end, from where the next line goes on; it opens a fold if the second
is the greater. With folding at `else` a line has its lowest level before
an opening brace instead.
-/
import Restyle.Ascii
import Restyle.Buffer
import Restyle.R.Settings

namespace Restyle.R.Folding

/-- Where folding stands: in a line, after some of its bytes. -/
structure State where
  line : Nat
  /-- Level at the start of the line. -/
  level : Int
  /-- Lowest level before an opening brace so far. -/
  lowest : Int
  /-- Level here. -/
  here : Int
  /-- Only white space so far. -/
  blank : Bool
  deriving DecidableEq, Repr

/-- Folding at the start of a line. -/
def State.atLine (line : Nat) (level : Int) : State := ⟨line, level, level, level, true⟩

/-- The level to record for the line. -/
def State.lineLevel (o : Options) (s : State) : FoldLevel :=
  let level := if o.foldAtElse then s.lowest else s.level
  { level, next := s.here, white := s.blank && o.foldCompact, header := level < s.here }

/-- Counts the brace at `pos`, if one is there. -/
def State.countBrace (b : Buffer) (pos : Nat) (s : State) : State :=
  if b.tokenAt pos = .operator then
    if b.text.byteAt pos = '\x7b'.toNat then
      { s with lowest := min s.lowest s.here, here := s.here + 1 }
    else if b.text.byteAt pos = '\x7d'.toNat then { s with here := s.here - 1 }
    else s
  else s

/-- Whether the byte at `pos` ends a line. -/
def endsLineAt (t : Text) (pos : Nat) : Bool :=
  (t.byteAt pos == '\r'.toNat && t.byteAt (pos + 1) != '\n'.toNat) || t.byteAt pos == '\n'.toNat

/-- Takes in the byte at `pos`; at a line end, says the level of the line. -/
def step (o : Options) (b : Buffer) (s : State) (pos : Nat) : List (Nat × FoldLevel) × State :=
  let s := s.countBrace b pos
  let (levels, s) :=
    if endsLineAt b.text pos then ([(s.line, s.lineLevel o)], State.atLine (s.line + 1) s.here)
    else ([], s)
  (levels, { s with blank := s.blank && Ascii.isSpace (b.text.byteAt pos) })

/-- Takes in the bytes at the positions given. -/
def run (o : Options) (b : Buffer) : State → List Nat → List (Nat × FoldLevel) × State
  | s, [] => ([], s)
  | s, pos :: rest =>
    let (levels, s) := step o b s pos
    let (more, s) := run o b s rest
    (levels ++ more, s)

/-- Where folding starts at `pos`: on the level where the line before ended. -/
def start (b : Buffer) (pos : Nat) : State :=
  let line := b.text.lineOf pos
  .atLine line (if line = 0 then FoldLevel.base else (FoldLevel.unpack (b.level (line - 1))).next)

/-- The levels of `length` bytes from `pos`. The last line of the text has no terminator,
and its level is said at the end. -/
def levels (o : Options) (b : Buffer) (pos length : Nat) : List (Nat × FoldLevel) :=
  let (levels, s) := run o b (start b pos) (List.range' pos length)
  if b.size ≤ pos + length ∧ s.line < b.text.lineCount then levels ++ [(s.line, s.lineLevel o)]
  else levels

end Restyle.R.Folding
