/-
Restyle.Text — the text under a highlighter, as read-only data.

A `Text` is a byte string with an encoding and its line table. Positions
are byte offsets. Reading past the end is never an error: a byte reads
as 0, a character as code 0 of width 1, and a line as starting at the
end of the text.

The line table is determined by the bytes (`starts_eq`), so two texts of
equal bytes and encoding are equal. A line ends after LF, after CR that
no LF follows, and after CRLF; a text always has at least one line.
-/
import Restyle.Text.Utf8

namespace Restyle

/-- How bytes make characters: one each, or UTF-8. -/
inductive Encoding where
  | utf8
  | eightBit
  deriving DecidableEq, Repr, Inhabited

/-! ## Lines -/

/-- Line feed. -/
def lf : UInt8 := 10

/-- Carriage return. -/
def cr : UInt8 := 13

/-- Whether `b`, with `rest` behind it, is the last byte of a line terminator. -/
def endsLine (b : UInt8) (rest : List UInt8) : Bool :=
  b == lf || (b == cr && rest.head? != some lf)

/-- The positions right after each line terminator of `bytes`, which stand at `pos`. -/
def lineBreaks (pos : Nat) : List UInt8 → List Nat
  | [] => []
  | b :: rest =>
    if endsLine b rest then (pos + 1) :: lineBreaks (pos + 1) rest
    else lineBreaks (pos + 1) rest

/-- Where the lines of a byte string start. -/
def lineStarts (bytes : List UInt8) : List Nat := 0 :: lineBreaks 0 bytes

/-! ## Texts -/

/-- A byte string, its encoding and its line table. -/
structure Text where
  bytes : Array UInt8
  encoding : Encoding
  /-- Where each line starts, in order. -/
  starts : Array Nat
  starts_eq : starts = (lineStarts bytes.toList).toArray

namespace Text

/-- The text of the given bytes, with its line table worked out. -/
def ofBytes (bytes : Array UInt8) (encoding : Encoding) : Text :=
  ⟨bytes, encoding, (lineStarts bytes.toList).toArray, rfl⟩

/-- The UTF-8 text of a string. -/
def ofString (s : String) : Text := ofBytes (Utf8.ofText s) .utf8

/-- A text is made of its bytes. -/
theorem ofBytes_eq (t : Text) : ofBytes t.bytes t.encoding = t := by
  obtain ⟨bytes, encoding, starts, rfl⟩ := t
  rfl

instance : Inhabited Text := ⟨ofBytes #[] .utf8⟩

variable (t : Text)

/-- Length in bytes. -/
def size : Nat := t.bytes.size

/-- The byte at `pos`, 0 outside the text. -/
def byteAt (pos : Nat) : Nat := (t.bytes.getD pos 0).toNat

/-- The character that starts at `pos`. A byte that starts none is a
character by itself. -/
def charAt (pos : Nat) : Utf8.Decoded :=
  if t.size ≤ pos then ⟨0, 1⟩
  else
    let lead := t.byteAt pos
    if t.encoding = .eightBit ∨ lead < 0x80 then ⟨lead, 1⟩
    else
      (Utf8.decode? lead (t.byteAt (pos + 1)) (t.byteAt (pos + 2)) (t.byteAt (pos + 3))).getD
        ⟨lead, 1⟩

/-! ## The line table -/

/-- Number of lines, at least one. -/
def lineCount : Nat := t.starts.size

/-- Where `line` starts; lines past the last start at the end. -/
def lineStart (line : Nat) : Nat := t.starts.getD line t.size

/-- The line that holds `pos`: the last one that starts at or before it. -/
def lineOf (pos : Nat) : Nat := t.starts.countP (· ≤ pos) - 1

/-- The line that holds the end of the text. -/
def lastLine : Nat := t.lineOf t.size

/-- Where the terminator of `line` starts; on the last line, the end of the text. -/
def lineEnd (line : Nat) : Nat :=
  let next := t.lineStart (line + 1)
  if t.lastLine ≤ line ∨ next = 0 then next
  else if t.byteAt (next - 1) = '\n'.toNat ∧ 2 ≤ next ∧ t.byteAt (next - 2) = '\r'.toNat then
    next - 2
  else if t.byteAt (next - 1) = '\n'.toNat ∨ t.byteAt (next - 1) = '\r'.toNat then next - 1
  else next

/-! ## Pieces -/

/-- The bytes from `start` up to `stop`, as far as the text has them. -/
def bytesIn (start stop : Nat) : List UInt8 := (t.bytes.extract start stop).toList

/-- The bytes from `start` up to `stop`, as they show. -/
def slice (start stop : Nat) : String := Utf8.toDisplay (t.bytesIn start stop)

/-- A line as it shows, with its terminator. -/
def lineText (line : Nat) : String := t.slice (t.lineStart line) (t.lineStart (line + 1))

/-- The characters from `pos` on, each with its position, at most `fuel` of them. -/
def charsFrom (pos : Nat) : Nat → List (Nat × Utf8.Decoded)
  | 0 => []
  | fuel + 1 =>
    if t.size ≤ pos then []
    else (pos, t.charAt pos) :: charsFrom (pos + (t.charAt pos).width) fuel

/-- All characters with their positions. -/
def chars : List (Nat × Utf8.Decoded) := t.charsFrom 0 t.size

/-! ## Moving by characters -/

/-- The position `n` characters after `pos`, at the furthest the first one at or
past the end. -/
def advance : Nat → Nat → Nat
  | 0, pos => pos
  | n + 1, pos => if t.size ≤ pos then pos else advance n (pos + (t.charAt pos).width)

/-- Steps back from `pos` over continuation bytes, at most `fuel` of them. -/
def backOverContinuation : Nat → Nat → Nat
  | 0, pos => pos
  | fuel + 1, pos =>
    if pos ≠ 0 ∧ Utf8.isContinuation (t.byteAt pos) then backOverContinuation fuel (pos - 1)
    else pos

/-- The start of the UTF-8 character that ends before `pos`, judged by its
continuation bytes alone. -/
def stepBack (pos : Nat) : Nat := t.backOverContinuation 3 (pos - 1)

/-- The position `n` characters before `pos`, at the furthest 0. -/
def retreat : Nat → Nat → Nat
  | 0, pos => pos
  | n + 1, pos => if pos = 0 then 0 else retreat n (t.stepBack pos)

/-- The position `n` characters from `pos`, before it if `n` is negative. -/
def move (pos : Nat) (n : Int) : Nat :=
  match t.encoding with
  | .eightBit => (min (max ((pos : Int) + n) 0) t.size).toNat
  | .utf8 => if 0 ≤ n then t.advance n.toNat pos else t.retreat n.natAbs pos

/-! ## Editing -/

/-- The text with `more` put in before position `pos`. -/
def insert (pos : Nat) (more : Array UInt8) : Text :=
  ofBytes (t.bytes.extract 0 pos ++ more ++ t.bytes.extract pos t.size) t.encoding

/-- The text without the bytes from `start` up to `stop`. -/
def delete (start stop : Nat) : Text :=
  ofBytes (t.bytes.extract 0 start ++ t.bytes.extract stop t.size) t.encoding

end Text

end Restyle
