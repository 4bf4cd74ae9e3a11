/-
Restyle.Toml.Value — the values of TOML, and their text on one line.

A table holds its entries in the order of their keys. Its one-line text
is that of an inline table; keys are bare where they can be. For a string
the plainest quotes are chosen that need no escapes: double, single,
three double, three single; if none does, it is escaped in double quotes,
three of them if it has line feeds. A tab is neutral in that choice, but
in double quotes it is written as an escape.
-/
import Restyle.Decimal.Shortest

namespace Restyle.Toml

/-- A TOML value. -/
inductive Value where
  | string (text : String)
  | integer (n : Int)
  | float (x : Binary64)
  | boolean (b : Bool)
  | array (items : List Value)
  /-- Entries in the order of their keys. -/
  | table (entries : List (String × Value))
  deriving Repr, Inhabited

/-! ## Strings -/

/-- A control character other than tab and line feed. -/
def isControlCode (c : Char) : Bool :=
  (c.toNat < 0x20 && c != '\t' && c != '\n') || c.toNat == 0x7F

/-- The length of the longest run of `q`, when `run` of them stand before. -/
def longestRun (q : Char) (run : Nat) : List Char → Nat
  | [] => run
  | c :: rest => if c = q then longestRun q (run + 1) rest else max run (longestRun q 0 rest)

/-- The ways to quote a string. -/
inductive Quoting where
  | basic
  | literal
  | multiLineBasic
  | multiLineLiteral
  deriving DecidableEq, Repr

/-- The quotes for a string. -/
def quotingOf (text : List Char) : Quoting :=
  let codes := text.any isControlCode
  let newline := text.contains '\n'
  let escape := text.contains '\\'
  let doubles := longestRun '\x22' 0 text
  let singles := longestRun '\x27' 0 text
  if !codes && !escape && doubles == 0 && !newline then .basic
  else if !codes && singles == 0 && !newline then .literal
  else if !codes && !escape && doubles ≤ 2 then .multiLineBasic
  else if !codes && singles ≤ 2 then .multiLineLiteral
  else if newline then .multiLineBasic
  else .basic

/-- Four upper case hexadecimal digits. -/
def hex4 (n : Nat) : List Char :=
  let digits := (Nat.toDigits 16 n).map Char.toUpper
  List.replicate (4 - digits.length) '0' ++ digits

/-- Escapes in double quotes. On several lines a line feed stands for itself, and so
does a double quote unless it is the third in a row; `quotes` counts those before. -/
def escaped (multiLine : Bool) (quotes : Nat) : List Char → List Char
  | [] => []
  | c :: rest =>
    if c = '\x22' then
      if multiLine && quotes < 2 then c :: escaped multiLine (quotes + 1) rest
      else '\\' :: c :: escaped multiLine 0 rest
    else
      (if c = '\x08' then ['\\', 'b']
        else if c = '\t' then ['\\', 't']
        else if c = '\n' then if multiLine then [c] else ['\\', 'n']
        else if c = '\x0c' then ['\\', 'f']
        else if c = '\r' then ['\\', 'r']
        else if c = '\\' then ['\\', '\\']
        else if c.toNat < 0x20 || c.toNat == 0x7F then '\\' :: 'u' :: hex4 c.toNat
        else [c]) ++ escaped multiLine 0 rest

/-- A string between its quotes. A string with line feeds starts on a line of its own. -/
def quoted (text : List Char) (how : Quoting) : List Char :=
  let lead := if text.contains '\n' then ['\n'] else []
  let double := ['\x22']
  let single := ['\x27']
  match how with
  | .basic => double ++ escaped false 0 text ++ double
  | .literal => single ++ text ++ single
  | .multiLineBasic =>
    double ++ double ++ double ++ lead ++ escaped true 0 text ++ double ++ double ++ double
  | .multiLineLiteral =>
    single ++ single ++ single ++ lead ++ text ++ single ++ single ++ single

/-- A string as a value. -/
def stringText (text : String) : String :=
  String.ofList (quoted text.toList (quotingOf text.toList))

/-! ## Keys -/

/-- A character of bare keys. -/
def isBareChar (c : Char) : Bool := c.isAlphanum || c == '_' || c == '-'

/-- A key, quoted only if it has to be. -/
def keyText (key : String) : String :=
  let text := key.toList
  let codes := text.any fun c => isControlCode c || c == '\n'
  if text ≠ [] ∧ text.all isBareChar then key
  else if !codes && !text.contains '\\' && !text.contains '\x22' then
    String.ofList (quoted text .basic)
  else if !codes && !text.contains '\x27' then String.ofList (quoted text .literal)
  else String.ofList (quoted text .basic)

/-! ## Values -/

mutual

/-- The text of a value on one line. -/
def Value.inline : Value → String
  | .string text => stringText text
  | .integer n => toString n
  | .float x => x.toText
  | .boolean b => if b then "true" else "false"
  | .array items => "[" ++ ", ".intercalate (inlineItems items) ++ "]"
  | .table [] => "\x7b\x7d"
  | .table entries => "\x7b " ++ ", ".intercalate (inlineEntries entries) ++ " \x7d"

/-- The texts of array items. -/
def inlineItems : List Value → List String
  | [] => []
  | v :: rest => v.inline :: inlineItems rest

/-- The texts of table entries. -/
def inlineEntries : List (String × Value) → List String
  | [] => []
  | (key, v) :: rest => (keyText key ++ " = " ++ v.inline) :: inlineEntries rest

end

end Restyle.Toml
