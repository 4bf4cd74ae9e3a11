/-
Restyle.R.Styling — the R lexer: a machine that walks a range with a
scanner and says how to style it.

The token of the scanner's open span is the state of the machine; beside
it the machine remembers how the raw string at hand will close. One round
ends the token at hand if it ends here, starts the next if none is open,
and moves on, so a range takes at most one round per position. What a
round does always ends but for the attempts to close a raw string, which
a number that no line has saved can keep going.

The closing of raw strings is noted at every line end, for the next line
to start from.
-/
import Restyle.Ascii
import Restyle.R.LineState
import Restyle.R.Settings
import Restyle.Scanner

namespace Restyle.R

open Ascii

/-! ## Characters -/

/-- A character that goes on with a name. -/
def isWordChar (c : Nat) : Bool := isAlphanumeric c || oneOf ['.', '_'] c

/-- A character that starts a name. -/
def isWordStart (c : Nat) : Bool := isAlphanumeric c || oneOf ['_'] c

/-- Operators and brackets, each a token of its own. The dot is none, as it makes
numbers. -/
def isOperator (c : Nat) : Bool :=
  oneOf ['-', '+', '!', '~', '?', ':', '*', '/', '^', '<', '>', '=', '&', '|', '$', '(', ')',
    '\x7b', '\x7d', '[', ']'] c

/-! ## Raw string delimiters -/

/-- Number of dashes from `pos` on, at most `fuel`. -/
def dashesFrom (t : Text) : Nat → Nat → Nat
  | 0, _ => 0
  | fuel + 1, pos => if t.byteAt pos = '-'.toNat then dashesFrom t fuel (pos + 1) + 1 else 0

/-- The bracket that closes an opening one. -/
def closingOf? (bracket : Nat) : Option Nat :=
  if bracket = '('.toNat then some ')'.toNat
  else if bracket = '['.toNat then some ']'.toNat
  else if bracket = '\x7b'.toNat then some '\x7d'.toNat
  else none

/-- How the raw string whose quote stands before `pos` will close, if dashes and a
bracket open one there. -/
def delimiterAt? (t : Text) (pos : Nat) : Option Delimiter :=
  let dashes := dashesFrom t (t.size - pos) pos
  (closingOf? (t.byteAt (pos + dashes))).map fun close => ⟨close, dashes⟩

/-! ## Closing raw strings -/

section

variable {t : Text}

/-- Moves over at most `count` dashes and says how many are still missing. -/
def passDashes : Nat → Scanner t → Nat × Scanner t
  | 0, s => (0, s)
  | count + 1, s => if s.sees '-' then passDashes count s.forward else (count + 1, s)

namespace Delimiter

/-- One attempt to close a raw string, at its bracket: the dashes and the quote must
follow. -/
def tryClose (d : Delimiter) (quote : Char) (s : Scanner t) : Bool × Scanner t :=
  let (missing, s) := passDashes d.dashes s.forward
  if missing = 0 ∧ s.sees quote then (true, s.forwardSwitch .plain) else (false, s)

/-- Attempts to close a raw string, the first of them here, while they fail and come to
another bracket. There is no result if that never ends, as behind the end of a range, where
only spaces are seen, if a space is the bracket. -/
def closeRaw (d : Delimiter) (quote : Char) (s : Scanner t) : Option (Bool × Scanner t) :=
  match d.tryClose quote s with
  | (true, s) => some (true, s)
  | (false, s) => if s.ch = d.close then d |>.closeRaw quote s else some (false, s)
partial_fixpoint

end Delimiter

end

/-! ## The machine -/

/-- The state of a run over a range of `t`. -/
structure Machine (t : Text) where
  scan : Scanner t
  /-- How the raw string at hand will close. -/
  raw : Option Delimiter
  deriving DecidableEq, Repr

namespace Machine

variable {t : Text}

/-- Changes the scanner. -/
def map (m : Machine t) (f : Scanner t → Scanner t) : Machine t := { m with scan := f m.scan }

/-- Notes for the cursor's line how its raw string will close. -/
def saveLine (m : Machine t) : Machine t := m.map (·.noteHere (LineState.pack m.raw))

/-! ### Ending tokens -/

/-- In a numeral: takes the start of an exponent, or ends at what is no digit. -/
def numeral (s : Scanner t) : Scanner t :=
  if oneOf ['e', 'E', 'p', 'P'] s.ch && (isDigit s.next || s.seesNext '+' || s.seesNext '-') then
    s.forward
  else if isHexDigit s.ch || (s.sees '.' && isDigit s.next) then s
  else
    let s := if oneOf ['L', 'i'] s.ch then s.forward else s
    s.switch .plain

/-- In a name: ends it, classified, where no more characters of names stand. -/
def word (g : Settings) (s : Scanner t) : Scanner t :=
  if isWordChar s.ch then s else (s.relabel (g.classify s.openText)).switch .plain

/-- In text between quotes: passes an escaped quote or backslash, or ends at the quote. -/
def quoted (quote : Char) (s : Scanner t) : Scanner t :=
  if s.sees backslash then
    if oneOf [doubleQuote, singleQuote, backslash, backtick] s.next then s.forward else s
  else if s.sees quote then s.forwardSwitch .plain
  else s

/-- In a raw string: ends it if its closing stands here. -/
def rawString (quote : Char) (m : Machine t) : Machine t :=
  match m.raw with
  | none => m
  | some d =>
    if m.scan.ch = d.close then
      match d.closeRaw quote m.scan with
      | some (closed, s) => { scan := s, raw := if closed then none else m.raw }
      | none => m
    else m

/-- In a percent operator: ends it at a percent sign, or as left open at the line end. -/
def percentOperator (m : Machine t) : Machine t :=
  if m.scan.sees '%' then m.map (·.forwardSwitch .plain)
  else if m.scan.atLineEnd then
    m.saveLine.map fun s => (s.relabel .openPercentOperator).forwardSwitch .plain
  else m

/-- Ends the token at hand if it ends here. -/
def endToken (g : Settings) (m : Machine t) : Machine t :=
  match m.scan.token with
  | .operator => m.map (·.switch .plain)
  | .number => m.map numeral
  | .identifier => m.map (word g)
  | .lineComment => if m.scan.atTerminator then m.map (·.switch .plain) else m
  | .string => m.map (quoted doubleQuote)
  | .singleQuoted => m.map (quoted singleQuote)
  | .backticked => m.map (quoted backtick)
  | .rawString => m.rawString doubleQuote
  | .rawSingleQuoted => m.rawString singleQuote
  | .percentOperator => m.percentOperator
  | _ => m

/-! ### Starting tokens -/

/-- Starts what `r` and a quote start: a raw string, or without a delimiter a name of
one letter before a plain string. -/
def startRaw (m : Machine t) : Machine t :=
  let double := m.scan.seesNext doubleQuote
  match delimiterAt? t (m.scan.pos + 2) with
  | some d =>
    { scan := (m.scan.switch (if double then .rawString else .rawSingleQuoted)).forwardBy
        (d.dashes + 2)
      raw := some d }
  | none =>
    { scan := (m.scan.switch .identifier).forwardSwitch (if double then .string else .singleQuoted)
      raw := none }

/-- Starts the token that the cursor's character starts, if it starts one. -/
def startToken (m : Machine t) : Machine t :=
  let s := m.scan
  if isDigit s.ch || (s.sees '.' && isDigit s.next) then
    m.map fun s =>
      let s := s.switch .number
      if s.sees '0' && oneOf ['x', 'X'] s.next then s.forward else s
  else if oneOf ['r', 'R'] s.ch && oneOf [doubleQuote, singleQuote] s.next then m.startRaw
  else if isWordStart s.ch then m.map (·.switch .identifier)
  else if s.sees '#' then m.map (·.switch .lineComment)
  else if s.sees doubleQuote then m.map (·.switch .string)
  else if s.sees '%' then m.map (·.switch .percentOperator)
  else if s.sees singleQuote then m.map (·.switch .singleQuoted)
  else if s.sees backtick then m.map (·.switch .backticked)
  else if isOperator s.ch then m.map (·.switch .operator)
  else m

/-! ### The run -/

/-- One round. -/
def step (g : Settings) (m : Machine t) : Machine t :=
  let m := m.endToken g
  let m := if m.scan.token = .plain then m.startToken else m
  let m := if m.scan.atLineEnd then m.saveLine else m
  m.map (·.forward)

/-- Rounds until the range is done, at most `fuel` of them. -/
def run (g : Settings) : Nat → Machine t → Machine t
  | 0, m => m
  | fuel + 1, m => if m.scan.more then run g fuel (m.step g) else m

/-- The machine at the start of a range, in what the line before left open. A percent
operator left open has ended with its line. -/
def start (t : Text) (start length : Nat) (token : Token) (saved : Option Delimiter) :
    Machine t where
  scan := Scanner.start t start length
    (if token = .openPercentOperator then .plain else token)
  raw := saved

end Machine

/-- How to style `length` bytes from `start`, which stand in `token`, after a line that
saved `raw`. -/
def style (g : Settings) (t : Text) (start length : Nat) (token : Token) (raw : Int) : Styling :=
  let m := Machine.start t start length token (LineState.unpack raw)
  (m.run g (length + 1)).scan.finish.styling

end Restyle.R
