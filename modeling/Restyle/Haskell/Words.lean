/-
Restyle.Haskell.Words — character classes of Haskell and the meaning of a
word where it stands.
-/
import Restyle.Ascii
import Restyle.Haskell.LineState
import Restyle.Haskell.Settings
import Restyle.Token

namespace Restyle.Haskell

open Ascii

/-- A letter or underscore. -/
def isWordStart (c : Nat) : Bool := isLower c || isUpper c || oneOf ['_'] c

/-- A character that goes on with a name. -/
def isWordChar (c : Nat) : Bool := isAlphanumeric c || oneOf ['_', singleQuote] c

/-- A character that operators are made of. -/
def isOperatorChar (c : Nat) : Bool :=
  oneOf ['!', '#', '$', '%', '&', '*', '+', '-', '.', '/', ':', '<', '=', '>', '?', '@', '^',
    '|', '~', backslash] c

/-- Brackets and separators, each a token of its own. -/
def isPunctuation (c : Nat) : Bool :=
  oneOf [',', ';', '(', ')', '[', ']', '\x7b', '\x7d'] c

/-- The radix of a numeral. -/
inductive Radix where
  | octal
  | decimal
  | hexadecimal
  deriving DecidableEq, Repr, Inhabited

/-- The digits of a radix. -/
def Radix.isDigit : Radix → Nat → Bool
  | octal => isOctalDigit
  | decimal => Ascii.isDigit
  | hexadecimal => isHexDigit

/-- Whether a word starts with an upper case letter. -/
def isCapitalised (word : String) : Bool :=
  match word.toList with
  | [] => false
  | c :: _ => isUpper c.toNat

/-! ## Classification -/

/-- The token and mode that a word's place alone gives it, when `scanned` is what its
spelling says. -/
def classifyInPlace (s : Settings) (word : String) (scanned : Token) (mode : Mode) :
    Token × Mode :=
  if s.keywords.contains word then (.keyword, .code)
  else if isCapitalised word then
    match mode with
    | .importName | .importAlias => (.moduleName, .importTail)
    | .moduleHeader => (.moduleName, .code)
    | _ => (scanned, .code)
  else if mode = .importName ∧ word = "qualified" then (.keyword, .importName)
  else if s.options.importSafe ∧ mode = .importName ∧ word = "safe" then (.keyword, .importName)
  else if mode = .importTail then
    if word = "as" then (.keyword, .importAlias)
    else if word = "hiding" then (.keyword, .code)
    else (scanned, .code)
  else if mode = .typeDecl ∧ word = "family" then (.keyword, .code)
  else (scanned, .code)

/-- The token of a word and the mode after it. A foreign declaration has words of its
own, and some words open a mode whatever else they are. -/
def classify (s : Settings) (word : String) (scanned : Token) (mode : Mode) : Token × Mode :=
  let (token, after) :=
    if mode = .foreignDecl ∧ s.foreignWords.contains word then (Token.keyword, Mode.foreignDecl)
    else classifyInPlace s word scanned mode
  if word = "import" ∧ mode ≠ .foreignDecl then (token, .importName)
  else if word = "module" then (token, .moduleHeader)
  else if word = "foreign" then (token, .foreignDecl)
  else if word = "type" ∨ word = "data" then (token, .typeDecl)
  else (token, after)

end Restyle.Haskell
