/-
Restyle.Style — how tokens look on a terminal.

A style is written as escape sequences around its text: background,
foreground, then bold, italic and underline. Afterwards everything is
reset at once if there were attributes, and otherwise each colour by
itself. Where colours are turned off their sequences say nothing, and
attributes stay.
-/
import Restyle.Token

namespace Restyle

/-- The colours of a terminal palette, or none of them. -/
inductive Colour where
  | unset
  | black
  | red
  | green
  | yellow
  | blue
  | magenta
  | cyan
  | white
  | brightBlack
  | brightRed
  | brightGreen
  | brightYellow
  | brightBlue
  | brightMagenta
  | brightCyan
  | brightWhite
  deriving DecidableEq, Repr, Inhabited

namespace Colour

/-- Every colour, with none first and the others in the order of the palette. -/
def all : List Colour :=
  [unset, black, red, green, yellow, blue, magenta, cyan, white, brightBlack, brightRed,
   brightGreen, brightYellow, brightBlue, brightMagenta, brightCyan, brightWhite]

/-- The name of a colour. -/
def name : Colour → String
  | unset => "Default"
  | black => "Black"
  | red => "Red"
  | green => "Green"
  | yellow => "Yellow"
  | blue => "Blue"
  | magenta => "Magenta"
  | cyan => "Cyan"
  | white => "White"
  | brightBlack => "BrightBlack"
  | brightRed => "BrightRed"
  | brightGreen => "BrightGreen"
  | brightYellow => "BrightYellow"
  | brightBlue => "BrightBlue"
  | brightMagenta => "BrightMagenta"
  | brightCyan => "BrightCyan"
  | brightWhite => "BrightWhite"

/-- The colour of a name. -/
def ofName? (s : String) : Option Colour := all.find? (·.name == s)

/-- The place in the palette. -/
def index? : Colour → Option Nat
  | unset => none
  | black => some 0
  | red => some 1
  | green => some 2
  | yellow => some 3
  | blue => some 4
  | magenta => some 5
  | cyan => some 6
  | white => some 7
  | brightBlack => some 8
  | brightRed => some 9
  | brightGreen => some 10
  | brightYellow => some 11
  | brightBlue => some 12
  | brightMagenta => some 13
  | brightCyan => some 14
  | brightWhite => some 15

end Colour

/-- Colours and attributes of a text. -/
structure Style where
  foreground : Colour := .unset
  background : Colour := .unset
  bold : Bool := false
  italic : Bool := false
  underline : Bool := false
  deriving DecidableEq, Repr, Inhabited

namespace Style

/-- Whether a text in this style is written as it is. -/
def isPlain (s : Style) : Bool := s == {}

/-- An escape sequence that selects a rendition. -/
def select (parameters : String) : String := "\x1b[" ++ parameters ++ "m"

/-- The sequence for a colour, whose parameters are left out where colours are off. -/
def selectColour (colours : Bool) (parameters : String) : String :=
  select (if colours then parameters else "")

/-- Whether there is any attribute beside colours. -/
def hasAttributes (s : Style) : Bool := s.bold || s.italic || s.underline

/-- The sequence that sets a colour of the palette; `ground` is 38 for the foreground and
48 for the background. -/
def setColour (colours : Bool) (ground : String) (c : Colour) : String :=
  match c.index? with
  | none => ""
  | some n => selectColour colours (ground ++ ";5;" ++ toString n)

/-- The sequences before a text. -/
def opening (colours : Bool) (s : Style) : String :=
  setColour colours "48" s.background ++ setColour colours "38" s.foreground
    ++ (if s.bold then select "1" else "") ++ (if s.italic then select "3" else "")
    ++ (if s.underline then select "4" else "")

/-- The sequences after a text. -/
def closing (colours : Bool) (s : Style) : String :=
  if s.hasAttributes then select "0"
  else
    (if s.background = .unset then "" else selectColour colours "49")
      ++ (if s.foreground = .unset then "" else selectColour colours "39")

/-- A text in a style. -/
def apply (colours : Bool) (s : Style) (text : String) : String :=
  opening colours s ++ text ++ closing colours s

end Style

/-- The look of each token. -/
def Token.style : Token → Style
  | .plain => {}
  | .identifier => {}
  | .keyword => { foreground := .magenta, bold := true }
  | .number => { foreground := .cyan }
  | .string => { foreground := .green }
  | .char => { foreground := .green }
  | .operator => { foreground := .brightWhite }
  | .capital => { foreground := .yellow }
  | .moduleName => { foreground := .brightBlue }
  | .lineComment => { foreground := .brightBlack, italic := true }
  | .blockComment => { foreground := .brightBlack, italic := true }
  | .pragma => { foreground := .brightCyan }
  | .directive => { foreground := .brightMagenta }
  | .baseFunction => { foreground := .blue }
  | .otherFunction => { foreground := .brightBlue }
  | .singleQuoted => { foreground := .green }
  | .backticked => { foreground := .brightRed }
  | .percentOperator => { foreground := .brightYellow }
  | .openPercentOperator => { foreground := .red, underline := true }
  | .rawString => { foreground := .brightGreen }
  | .rawSingleQuoted => { foreground := .brightGreen }

end Restyle
