/-
Restyle.Haskell.Styling — the Haskell lexer: a machine that walks a range
with a scanner and says how to style it.

The token of the scanner's open span is the state of the machine. Beside
it the machine remembers the mode of declarations, the depth of nested
comments, the radix of the numeral at hand, and whether a line comment has
shown dashes only so far. `step` is one round. It either moves on or
changes to a state that moves on within two more rounds, so `run` with
three rounds per position reaches the end of the range.

Mode and depth are noted at every line end, for the next line to start
from. The other two never matter across a line end.
-/
import Restyle.Haskell.Words
import Restyle.Scanner

namespace Restyle.Haskell

open Ascii

/-- The state of a run over a range of `t`. -/
structure Machine (t : Text) where
  scan : Scanner t
  mode : Mode
  /-- Depth of nested comments. -/
  depth : Nat
  /-- Radix of the numeral at hand. -/
  radix : Radix
  /-- The line comment at hand has shown only dashes so far. -/
  inDashes : Bool
  deriving DecidableEq, Repr

namespace Machine

variable {t : Text}

/-- Changes the scanner. -/
def map (m : Machine t) (f : Scanner t → Scanner t) : Machine t := { m with scan := f m.scan }

/-- Notes mode and depth for the cursor's line. -/
def saveLine (m : Machine t) : Machine t :=
  m.map (·.noteHere (LineState.pack ⟨m.mode, m.depth⟩))

/-! ## Operators -/

/-- The token of the operator at the cursor: a colon makes a constructor operator,
unless the operator is `::`. -/
def operatorToken (s : Scanner t) : Token :=
  if s.sees ':' && !(s.seesNext ':' && !isOperatorChar (s.byteBeside 2)) then .capital
  else .operator

/-- Takes all operator characters as one token. -/
def operatorRun (s : Scanner t) : Scanner t :=
  let token := operatorToken s
  let s := s.skip isOperatorChar
  (s.paintTo s.pos token).relabel .plain

/-! ## Literals -/

/-- Moves over a magic hash, or two of them if `two`. -/
def skipHash (o : Options) (two : Bool) (s : Scanner t) : Scanner t :=
  if o.magicHash && s.sees '#' then
    let s := s.forward
    if two && s.sees '#' then s.forward else s
  else s

/-- One round in a string or character literal that ends with `quote`. -/
def quoted (o : Options) (quote : Char) (m : Machine t) : Machine t :=
  let s := m.scan
  if s.sees quote then m.map fun s => (skipHash o false s.forward).switch .plain
  else if s.sees backslash then
    let m := m.map (·.forward)
    let m := if m.scan.atLineEnd then m.saveLine else m
    m.map (·.forward)
  else if s.atLineEnd then m.map fun s => (s.switch .plain).forward
  else m.map (·.forward)

/-- One round in a numeral. -/
def numeral (o : Options) (radix : Radix) (s : Scanner t) : Scanner t :=
  if radix.isDigit s.ch || (s.sees '.' && radix.isDigit s.next) then s.forward
  else if radix == .decimal && oneOf ['e', 'E'] s.ch
      && (isDigit s.next || oneOf ['+', '-'] s.next) then
    let s := s.forward
    if oneOf ['+', '-'] s.ch then s.forward else s
  else (skipHash o true s).switch .plain

/-! ## Words -/

/-- Moves to the end of a name whose spelling so far makes it `token`. A capitalised
part may be followed by a dot and the name it qualifies. -/
def nameRest (o : Options) : Nat → Token → Scanner t → Token × Scanner t
  | 0, token, s => (token, s)
  | fuel + 1, token, s =>
    if !s.more then (token, s)
    else if isWordChar s.ch then nameRest o fuel token s.forward
    else if s.sees '#' && o.magicHash then (token, s.forward)
    else if token == .capital && s.sees '.' then
      if isUpper s.next then nameRest o fuel .capital s.forward
      else if isWordStart s.next then nameRest o fuel .identifier s.forward
      else if isOperatorChar s.next then
        let s := s.forward
        (if s.sees ':' then .capital else .operator, s.skip isOperatorChar)
      else (token, s)
    else (token, s)

/-- Moves over the name at the cursor and says what its spelling makes it. -/
def name (o : Options) (s : Scanner t) : Token × Scanner t :=
  let token := if isUpper s.ch then Token.capital else .identifier
  let s := s.forward
  nameRest o (s.stop - s.pos) token s

/-- Takes the name at the cursor, of the class that its place gives it. -/
def word (g : Settings) (m : Machine t) : Machine t :=
  let (scanned, s) := name g.options m.scan
  let (token, mode) := classify g s.openText scanned m.mode
  { m with scan := (s.paintTo s.pos token).relabel .plain, mode }

/-! ## Comments, pragmas and directives -/

/-- One round in a line comment. When the dashes are followed by another operator
character it was an operator after all. -/
def lineComment (m : Machine t) : Machine t :=
  if m.inDashes && !m.scan.sees '-' then
    { m with
      inDashes := false
      scan := if isOperatorChar m.scan.ch then m.scan.relabel .operator else m.scan }
  else if m.scan.atLineEnd then m.map fun s => (s.switch .plain).forward
  else m.map (·.forward)

/-- One round in a nested comment. -/
def blockComment (m : Machine t) : Machine t :=
  if m.scan.seesPair '\x7b' '-' then { m.map (·.forwardBy 2) with depth := m.depth + 1 }
  else if m.scan.seesPair '-' '\x7d' then
    let m := { m.map (·.forwardBy 2) with depth := m.depth - 1 }
    if m.depth = 0 then m.map (·.switch .plain) else m
  else m.map (·.forward)

/-- The text that opens a pragma. -/
def pragmaOpen : List Nat := ['\x7b', '-', '#'].map Char.toNat

/-- The text that closes a pragma. -/
def pragmaClose : List Nat := ['#', '-', '\x7d'].map Char.toNat

/-- One round in a pragma, which never ends at the start of a line. -/
def pragma (s : Scanner t) : Scanner t :=
  if s.seesText pragmaClose && !s.atLineStart then (s.forwardBy 3).switch .plain else s.forward

/-- One round in a preprocessor line. -/
def directive (o : Options) (s : Scanner t) : Scanner t :=
  if o.commandWordOnly && !isWordStart s.ch then s.switch .plain
  else if s.atLineEnd then (s.switch .plain).forward
  else s.forward

/-! ## Plain text -/

/-- Starts a numeral at a digit. -/
def startNumeral (m : Machine t) : Machine t :=
  let s := m.scan.switch .number
  if s.sees '0' && oneOf ['x', 'X'] s.next then
    { m with scan := s.forwardBy 2, radix := .hexadecimal, mode := .code }
  else if s.sees '0' && oneOf ['o', 'O'] s.next then
    { m with scan := s.forwardBy 2, radix := .octal, mode := .code }
  else { m with scan := s.forward, radix := .decimal, mode := .code }

/-- Starts a character literal or a quoted name at a single quote. -/
def startQuote (o : Options) (s : Scanner t) : Scanner t :=
  let s := (s.switch .char).forward
  if !o.allowQuotes then s.relabel .char
  else if s.sees singleQuote && isWordStart s.next then s.forward.relabel .identifier
  else if s.seesNext singleQuote then s.relabel .char
  else if isWordStart s.ch then s.relabel .identifier
  else if s.sees ':' then s.relabel .operator
  else if s.sees '[' || s.sees '(' then (s.paintTo s.pos .operator).relabel .plain
  else s.relabel .char

/-- One round outside every token: starts the next one or passes a character by. -/
def plain (o : Options) (m : Machine t) : Machine t :=
  let s := m.scan
  if isDigit s.ch then m.startNumeral
  else if s.seesText pragmaOpen then m.map fun s => (s.switch .pragma).forwardBy 3
  else if s.seesPair '-' '-' then
    { m.map fun s => (s.switch .lineComment).forwardBy 2 with inDashes := true }
  else if s.seesPair '\x7b' '-' then
    { m.map fun s => (s.switch .blockComment).forwardBy 2 with depth := m.depth + 1 }
  else if s.sees doubleQuote then m.map fun s => (s.switch .string).forward
  else if s.sees singleQuote then m.map (startQuote o)
  else if s.atLineStart && s.sees '#' && m.mode != .foreignDecl then
    { m.map fun s => (s.switch .directive).forward with mode := .code }
  else if isOperatorChar s.ch then { m.map (·.switch .operator) with mode := .code }
  else if isPunctuation s.ch then m.map fun s => (s.switch .operator).forward.switch .plain
  else if isWordStart s.ch then m.map (·.switch .identifier)
  else m.map (·.forward)

/-! ## The run -/

/-- Whether a backslash stands right before a line end and keeps what it is in open. -/
def continues (s : Scanner t) : Bool :=
  s.sees backslash && (s.token == .string || s.token == .directive)
    && (s.seesNext '\n' || s.seesNext '\r')

/-- Moves over a backslash and the line end after it. -/
def passLineEnd (s : Scanner t) : Scanner t :=
  let s := s.forward
  let s := if s.sees '\r' && s.seesNext '\n' then s.forward else s
  s.forward

/-- One round in the state that the open span's token names. Tokens that this lexer
never leaves open count as plain. -/
def stepToken (g : Settings) (m : Machine t) : Machine t :=
  match m.scan.token with
  | .operator => m.map operatorRun
  | .string => m.quoted g.options doubleQuote
  | .char => m.quoted g.options singleQuote
  | .number => m.map (numeral g.options m.radix)
  | .identifier => m.word g
  | .lineComment => m.lineComment
  | .blockComment => m.blockComment
  | .pragma => m.map pragma
  | .directive => m.map (directive g.options)
  | .plain => m.plain g.options
  | _ => (m.map (·.switch .plain)).plain g.options

/-- One round. -/
def step (g : Settings) (m : Machine t) : Machine t :=
  let m := if m.scan.atLineEnd then m.saveLine else m
  if continues m.scan then m.saveLine.map passLineEnd else m.stepToken g

/-- Rounds until the range is done, at most `fuel` of them. -/
def run (g : Settings) : Nat → Machine t → Machine t
  | 0, m => m
  | fuel + 1, m => if m.scan.more then run g fuel (m.step g) else m

/-- The machine at the start of a range, in what the line before left open. -/
def start (t : Text) (start length : Nat) (token : Token) (saved : LineState) : Machine t where
  scan := Scanner.start t start length token
  mode := saved.mode
  depth := saved.depth
  radix := .decimal
  inDashes := false

end Machine

/-- The rounds that a range of `length` bytes can take. -/
def roundsFor (length : Nat) : Nat := 3 * (length + 1)

/-- How to style `length` bytes from `start`, which stand in `token`, after a line that
saved `raw`. -/
def style (g : Settings) (t : Text) (start length : Nat) (token : Token) (raw : Int) : Styling :=
  let m := Machine.start t start length token (LineState.unpack raw)
  (m.run g (roundsFor length)).scan.finish.styling

end Restyle.Haskell
