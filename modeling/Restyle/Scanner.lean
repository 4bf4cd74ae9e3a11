/-
Restyle.Scanner — a cursor with a pen.

While it walks, a scanner holds an open span: it started at `mark` and
will be painted as `token`. Switching tokens paints the span up to the
cursor and opens the next; relabelling changes what it will be painted
as. Spans are never empty, follow each other without gaps and stay
inside the text. Line states to be stored are noted on the way.

`Scanner.styling` is what the walk has to say.
-/
import Restyle.Buffer
import Restyle.Cursor

namespace Restyle

/-- A cursor, its open span, and what it has painted and noted. -/
structure Scanner (t : Text) extends Cursor t where
  /-- What the open span will be painted as. -/
  token : Token
  /-- Where the open span starts. -/
  mark : Nat
  /-- Spans painted, oldest first. -/
  spans : Array Span
  /-- Line states noted, oldest first. -/
  lineStates : Array (Nat × Int)
  deriving DecidableEq, Repr

namespace Scanner

variable {t : Text}

/-- A scanner at the start of a range, with a span of `token` open. -/
def start (t : Text) (start length : Nat) (token : Token) : Scanner t where
  toCursor := Cursor.start t start length
  token := token
  mark := start
  spans := #[]
  lineStates := #[]

/-- What the walk so far has to say. -/
def styling (s : Scanner t) : Styling := ⟨s.spans, s.lineStates⟩

/-! ## Moving -/

/-- Moves on by one character. -/
def forward (s : Scanner t) : Scanner t := { s with toCursor := s.toCursor.forward }

/-- Moves on by `n` characters. -/
def forwardBy : Nat → Scanner t → Scanner t
  | 0, s => s
  | n + 1, s => forwardBy n s.forward

/-- Moves on while the walk has not ended and `target` is ahead. -/
def forwardTo (target : Nat) : Nat → Scanner t → Scanner t
  | 0, s => s
  | fuel + 1, s => if s.pos < target && s.more then forwardTo target fuel s.forward else s

/-- Moves on until at least `n` bytes are behind or the walk ends. -/
def forwardBytes (n : Nat) (s : Scanner t) : Scanner t :=
  s.forwardTo (s.pos + n) (s.stop - s.pos)

/-- Moves on over characters of class `p`, at most `fuel` of them. -/
def forwardWhile (p : Nat → Bool) : Nat → Scanner t → Scanner t
  | 0, s => s
  | fuel + 1, s => if p s.ch then forwardWhile p fuel s.forward else s

/-- Moves on over characters of class `p`, to which a space must not belong. -/
def skip (p : Nat → Bool) (s : Scanner t) : Scanner t :=
  s.forwardWhile p (s.stop - s.pos + 1)

/-! ## Painting -/

/-- Paints the open span up to `stop` as `token`; what follows is the open span then. -/
def paintTo (stop : Nat) (token : Token) (s : Scanner t) : Scanner t :=
  let stop := min stop t.size
  if s.mark < stop then { s with spans := s.spans.push ⟨s.mark, stop, token⟩, mark := stop }
  else s

/-- Paints the open span up to the cursor. -/
def finish (s : Scanner t) : Scanner t := s.paintTo s.pos s.token

/-- Paints the open span up to the cursor and opens one of `token`. -/
def switch (token : Token) (s : Scanner t) : Scanner t := { s.finish with token := token }

/-- Moves on by one character, then switches. -/
def forwardSwitch (token : Token) (s : Scanner t) : Scanner t := s.forward.switch token

/-- Changes what the open span will be painted as. -/
def relabel (token : Token) (s : Scanner t) : Scanner t := { s with token := token }

/-- Notes the state of a line. -/
def note (line : Nat) (state : Int) (s : Scanner t) : Scanner t :=
  { s with lineStates := s.lineStates.push (line, state) }

/-- Notes the state of the cursor's line. -/
def noteHere (state : Int) (s : Scanner t) : Scanner t := s.note s.line state

/-! ## The open span -/

/-- Bytes between the start of the open span and the cursor. -/
def openSize (s : Scanner t) : Nat := s.pos - s.mark

/-- The longest text of an open span that is looked up in word lists. -/
def maxWordSize : Nat := 99

/-- Steps back from `stop` while that would cut a character that goes on before `pos`. -/
def cutBack (t : Text) (mark pos : Nat) : Nat → Nat
  | 0 => 0
  | stop + 1 =>
    if mark < stop + 1 ∧ stop + 1 < pos ∧ Utf8.isContinuation (t.byteAt (stop + 1)) then
      cutBack t mark pos stop
    else stop + 1

/-- The text of the open span, cut at a character boundary if it is too long. -/
def openText (s : Scanner t) : String :=
  t.slice s.mark (cutBack t s.mark s.pos (min (min s.pos (s.mark + maxWordSize)) t.size))

end Scanner

end Restyle
