/-
Restyle.Buffer — a text with everything a highlighter records about it:
one token per byte, one line state and one packed fold level per line,
and a log of the spans painted since it was last emptied.

Reading outside a table gives what an untouched entry holds; writing
there does nothing.
-/
import Restyle.FoldLevel
import Restyle.Span
import Restyle.Text

namespace Restyle

/-! ## Tables -/

/-- Sets `count` entries from `start` on, as far as the table reaches. -/
def fill {α : Type} (x : α) (start : Nat) : Nat → Array α → Array α
  | 0, xs => xs
  | count + 1, xs => fill x (start + 1) count (xs.setIfInBounds start x)

/-- The table with `more` put in before index `i`. -/
def insertAt {α : Type} (xs : Array α) (i : Nat) (more : Array α) : Array α :=
  xs.extract 0 i ++ more ++ xs.extract i xs.size

/-- The table without the entries from `i` up to `j`. -/
def removeRange {α : Type} (xs : Array α) (i j : Nat) : Array α :=
  xs.extract 0 i ++ xs.extract j xs.size

/-! ## Styling -/

/-- What a lexer says about a range: spans to paint and line states to store, each
in order. -/
structure Styling where
  spans : Array Span
  lineStates : Array (Nat × Int)
  deriving DecidableEq, Repr, Inhabited

/-! ## Buffers -/

/-- A text with its styles, line states and fold levels. -/
structure Buffer where
  text : Text
  /-- One token per byte. -/
  styles : Array Token
  /-- One saved lexer state per line. -/
  lineStates : Array Int
  /-- One packed fold level per line. -/
  levels : Array Int
  /-- The spans painted since the log was last emptied, oldest first. -/
  log : Array Span

namespace Buffer

/-- A text nothing is known about yet. -/
def ofText (t : Text) : Buffer where
  text := t
  styles := Array.replicate t.size .plain
  lineStates := Array.replicate t.lineCount 0
  levels := Array.replicate t.lineCount FoldLevel.base
  log := #[]

instance : Inhabited Buffer := ⟨ofText default⟩

/-! ### Reading -/

/-- Length of the text in bytes. -/
def size (b : Buffer) : Nat := b.text.size

/-- The token at `pos`, plain outside the text. -/
def tokenAt (b : Buffer) (pos : Nat) : Token := b.styles.getD pos .plain

/-- The saved state of `line`, 0 past the last line. -/
def lineState (b : Buffer) (line : Nat) : Int := b.lineStates.getD line 0

/-- The packed fold level of `line`, the base level past the last line. -/
def level (b : Buffer) (line : Nat) : Int := b.levels.getD line FoldLevel.base

/-- The maximal runs of equal style, which cover the text. -/
def runs (b : Buffer) : List Span := Span.runs b.styles.toList

/-! ### Writing -/

/-- Stores the state of `line`. -/
def setLineState (b : Buffer) (line : Nat) (state : Int) : Buffer :=
  { b with lineStates := b.lineStates.setIfInBounds line state }

/-- Stores the packed fold level of `line`. -/
def setLevel (b : Buffer) (line : Nat) (level : Int) : Buffer :=
  { b with levels := b.levels.setIfInBounds line level }

/-- Paints the bytes of a span, as far as the text has them, and logs what was
painted unless it is nothing. -/
def paint (b : Buffer) (s : Span) : Buffer :=
  let stop := min s.stop b.styles.size
  if stop ≤ s.start then b
  else
    { b with
      styles := fill s.token s.start (stop - s.start) b.styles
      log := b.log.push ⟨s.start, stop, s.token⟩ }

/-- Paints and stores what a lexer said. -/
def restyle (b : Buffer) (r : Styling) : Buffer :=
  r.lineStates.foldl (fun b p => b.setLineState p.1 p.2) (r.spans.foldl paint b)

/-- Stores fold levels, in order. -/
def setLevels (b : Buffer) (levels : List (Nat × FoldLevel)) : Buffer :=
  levels.foldl (fun b p => b.setLevel p.1 p.2.pack) b

/-- Empties the log. -/
def clearLog (b : Buffer) : Buffer := { b with log := #[] }

/-! ### Editing -/

/-- Puts `more` in before `pos`. New bytes are plain, and new lines, which come
after the line that holds `pos`, know nothing. -/
def insert (b : Buffer) (pos : Nat) (more : Array UInt8) : Buffer :=
  let pos := min pos b.size
  let text := b.text.insert pos more
  let added := text.lineCount - b.text.lineCount
  let line := min (b.text.lineOf pos + 1) b.lineStates.size
  { b with
    text
    styles := insertAt b.styles pos (Array.replicate more.size .plain)
    lineStates := insertAt b.lineStates line (Array.replicate added 0)
    levels := insertAt b.levels line (Array.replicate added FoldLevel.base) }

/-- Takes out the bytes from `start` up to `stop`. Lines that vanish are those
after the line that holds `start`. -/
def delete (b : Buffer) (start stop : Nat) : Buffer :=
  let stop := min stop b.size
  let start := min start stop
  if start = stop then b
  else
    let text := b.text.delete start stop
    let removed := b.text.lineCount - text.lineCount
    let first := min (b.text.lineOf start + 1) b.lineStates.size
    let past := min (first + removed) b.lineStates.size
    { b with
      text
      styles := removeRange b.styles start stop
      lineStates := removeRange b.lineStates first past
      levels := removeRange b.levels first past }

end Buffer

end Restyle
