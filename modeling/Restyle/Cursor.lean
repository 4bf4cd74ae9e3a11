/-
Restyle.Cursor — a walk over a range of a text, one character at a time.

The cursor knows the character it stands on and the one behind it, the
line it is on and whether it stands at the start or end of that line.
A range that reaches the end of its text is extended by one position, so
that a walk also stands behind the last character once; there it sees
code 0. Moving on from the end of the range leaves the position alone
and turns everything in sight into spaces at the end of a line.
-/
import Restyle.Ascii
import Restyle.Text

namespace Restyle

/-- A position in a walk over `t`, with what can be seen from it. -/
structure Cursor (t : Text) where
  /-- Byte offset of `ch`. -/
  pos : Nat
  /-- Where the walk ends. -/
  stop : Nat
  /-- The line of `pos`. -/
  line : Nat
  /-- `ch` is the first character of its line. -/
  atLineStart : Bool
  /-- `ch` is the last character of its line, the LF of a CRLF. -/
  atLineEnd : Bool
  /-- The character before, 0 at the start of the walk. -/
  prev : Nat
  /-- The character at `pos` and its width. -/
  ch : Nat
  width : Nat
  /-- The character after and its width. -/
  next : Nat
  nextWidth : Nat
  deriving DecidableEq, Repr

namespace Cursor

variable {t : Text}

/-- Whether position `pos` of line `line` is the last of the line; on the last
line, the end of the text. -/
def endsLineAt (t : Text) (line pos : Nat) : Bool :=
  if line < t.lastLine then t.lineStart (line + 1) - 1 ≤ pos else t.lineStart (line + 1) ≤ pos

/-- The start of a walk over `length` bytes from `start`. -/
def start (t : Text) (start length : Nat) : Cursor t :=
  let line := t.lineOf start
  let here := t.charAt start
  let after := t.charAt (start + here.width)
  { pos := start
    stop := if start + length = t.size then start + length + 1 else start + length
    line := line
    atLineStart := t.lineStart line = start
    atLineEnd := endsLineAt t line start
    prev := 0
    ch := here.code
    width := here.width
    next := after.code
    nextWidth := after.width }

/-- Whether the walk has not reached its end. -/
def more (c : Cursor t) : Bool := c.pos < c.stop

/-- Moves on by one character. -/
def forward (c : Cursor t) : Cursor t :=
  if c.more then
    let pos := c.pos + c.width
    let line := if c.atLineEnd then c.line + 1 else c.line
    let after := t.charAt (pos + c.nextWidth)
    { pos := pos
      stop := c.stop
      line := line
      atLineStart := c.atLineEnd
      atLineEnd := endsLineAt t line pos
      prev := c.ch
      ch := c.next
      width := c.nextWidth
      next := after.code
      nextWidth := after.width }
  else
    { c with atLineStart := false, atLineEnd := true, prev := 0x20, ch := 0x20, next := 0x20 }

/-- The cursors of a walk while it has not ended, and the one at its end. -/
def walk : Nat → Cursor t → List (Cursor t) × Cursor t
  | 0, c => ([], c)
  | fuel + 1, c =>
    if c.more then
      let (rest, last) := walk fuel c.forward
      (c :: rest, last)
    else ([], c)

/-- The whole walk from here. -/
def walkToEnd (c : Cursor t) : List (Cursor t) × Cursor t := c.walk (c.stop - c.pos)

/-! ## Looking around -/

/-- Whether the cursor stands on `c`. -/
def sees (cur : Cursor t) (c : Char) : Bool := cur.ch == c.toNat

/-- Whether `c` comes next. -/
def seesNext (cur : Cursor t) (c : Char) : Bool := cur.next == c.toNat

/-- Whether the cursor stands on `a` and `b` comes next. -/
def seesPair (cur : Cursor t) (a b : Char) : Bool := cur.sees a && cur.seesNext b

/-- What stands `i` bytes ahead: the first two as characters, the rest as bytes. -/
def ahead (cur : Cursor t) (i : Nat) : Nat :=
  match i with
  | 0 => cur.ch
  | 1 => cur.next
  | i => t.byteAt (cur.pos + i)

/-- Whether the bytes of an ASCII text stand ahead. -/
def seesText (cur : Cursor t) (s : List Nat) : Bool :=
  s.zipIdx.all fun (b, i) => cur.ahead i == b

/-- Whether the bytes of a lower case ASCII text stand ahead, in any case. -/
def seesTextIgnoringCase (cur : Cursor t) (s : List Nat) : Bool :=
  s.zipIdx.all fun (b, i) => Ascii.toLower (cur.ahead i) == b

/-- Whether the cursor stands on the terminator of its line, or behind the last line. -/
def atTerminator (cur : Cursor t) : Bool := cur.pos == t.lineEnd cur.line

/-- The byte `n` bytes from here, 0 outside the text. -/
def byteBeside (cur : Cursor t) (n : Int) : Nat :=
  if 0 ≤ (cur.pos : Int) + n then t.byteAt ((cur.pos : Int) + n).toNat else 0

/-- The position `n` characters from `pos`, if the way there stays inside the text. -/
def positionAfter (t : Text) : Nat → Nat → Option Nat
  | 0, pos => some pos
  | n + 1, pos =>
    if t.size ≤ pos then none else positionAfter t n (pos + (t.charAt pos).width)

/-- The position `n` characters before `pos`, if the text has so many. -/
def positionBefore (t : Text) : Nat → Nat → Option Nat
  | 0, pos => some pos
  | n + 1, pos => if pos = 0 then none else positionBefore t n (t.move pos (-1))

/-- The character `n` characters from here, 0 outside the text. -/
def charBeside (cur : Cursor t) (n : Int) : Nat :=
  if n = 0 then cur.ch
  else
    let target :=
      if 0 < n then positionAfter t n.toNat cur.pos else positionBefore t n.natAbs cur.pos
    match target with
    | some pos => (t.charAt pos).code
    | none => 0

end Cursor

end Restyle
