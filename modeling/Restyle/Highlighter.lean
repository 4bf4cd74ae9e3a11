/-
Restyle.Highlighter — keeping a buffer styled while it is edited.

A highlighter knows up to where the buffer is styled. An edit moves that
point back; styling always restarts at a line start, in the token of the
byte before it, so that the lexer can pick up what the line before saved.
Lines are styled whole.
-/
import Restyle.Lexer

namespace Restyle

/-- A lexer at work on one buffer. -/
structure Highlighter where
  lexer : Lexer
  /-- The bytes before this position are styled and folded. -/
  styledTo : Nat
  deriving DecidableEq, Repr, Inhabited

namespace Highlighter

/-- A highlighter that has styled nothing yet. -/
def start (lexer : Lexer) : Highlighter := ⟨lexer, 0⟩

/-- Forgets all styling. -/
def invalidate (h : Highlighter) : Highlighter := { h with styledTo := 0 }

/-- Takes a lexer with other settings; all styling is forgotten if they differ. -/
def withLexer (h : Highlighter) (lexer : Lexer) : Highlighter :=
  if lexer = h.lexer then h else { lexer, styledTo := 0 }

/-- Sets a switch of the lexer. -/
def setProperty (h : Highlighter) (name value : String) : Except Error Highlighter :=
  (h.lexer.setProperty name value).map h.withLexer

/-- Replaces a word list of the lexer. -/
def setWords (h : Highlighter) (slot : Nat) (words : String) : Except Error Highlighter :=
  (h.lexer.setWords slot words).map h.withLexer

/-- Takes note of a change of the text at `pos`. Styling restarts on the line of the
byte before it, since the change can make that byte a line end. -/
def edit (h : Highlighter) (pos : Nat) : Highlighter :=
  { h with styledTo := min h.styledTo (pos - 1) }

/-- Where styling restarts if it has to: the start of the line that is styled in part. -/
def restart (h : Highlighter) (b : Buffer) : Nat :=
  b.text.lineStart (b.text.lineOf (min h.styledTo b.size))

/-- Where styling up to `pos` ends: at the end of the line of the byte before `pos`. -/
def goal (b : Buffer) (pos : Nat) : Nat := b.text.lineStart (b.text.lineOf (min pos b.size - 1) + 1)

/-- The token in which styling from a line start begins: that of the byte before. -/
def tokenBefore (b : Buffer) (start : Nat) : Token :=
  if start = 0 then .plain else b.tokenAt (start - 1)

/-- Styles and folds whole lines until `pos` is covered. An empty text has nothing to
lex; what its only line knew is reset. -/
def ensure (h : Highlighter) (b : Buffer) (pos : Nat) : Highlighter × Buffer :=
  if b.size = 0 then
    ({ h with styledTo := 0 }, (b.setLineState 0 0).setLevel 0 FoldLevel.base)
  else if min pos b.size ≤ min h.styledTo b.size then
    ({ h with styledTo := min h.styledTo b.size }, b)
  else
    let start := h.restart b
    let stop := goal b pos
    let styled := h.lexer.lex b start (stop - start) (tokenBefore b start)
    let (lexer, folded) := h.lexer.fold styled start (stop - start)
    ({ lexer, styledTo := stop }, folded)

end Highlighter

end Restyle
