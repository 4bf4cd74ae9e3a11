/-
Restyle.R.Settings — the switches and word lists of the R lexer.
-/
import Restyle.Settings
import Restyle.Token
import Restyle.WordList

namespace Restyle.R

/-- The switches. -/
structure Options where
  /-- Blank lines are marked white. -/
  foldCompact : Bool := true
  /-- A line that closes a block and opens one folds at its lowest level. -/
  foldAtElse : Bool := false
  deriving DecidableEq, Repr, Inhabited

/-- The switches by name. -/
def properties : List (Property Options) :=
  [{ name := "fold.compact"
     description := "Set to 0 to keep trailing blank lines out of the white-line state"
     get := (·.foldCompact)
     set := fun on o => { o with foldCompact := on } },
   { name := "fold.at.else"
     description := "Set to 1 to fold on the else line of \"\x7d else \x7b\" blocks"
     get := (·.foldAtElse)
     set := fun on o => { o with foldAtElse := on } }]

/-- What each word list holds, in slot order. -/
def wordListNames : List String :=
  ["Language Keywords", "Base / Default package function", "Other Package Functions", "Unused",
    "Unused"]

/-- The switches and word lists together. -/
structure Settings where
  options : Options := {}
  keywords : WordList := .empty
  baseFunctions : WordList := .empty
  otherFunctions : WordList := .empty
  deriving DecidableEq, Repr, Inhabited

/-- Sets a switch from text. -/
def Settings.setProperty (s : Settings) (name value : String) : Except Error Settings :=
  (Property.assign properties s.options name value).map fun options => { s with options }

/-- Replaces the words of a slot; two slots exist and hold nothing. -/
def Settings.setWords (s : Settings) (slot : Nat) (words : WordList) : Except Error Settings :=
  match slot with
  | 0 => .ok { s with keywords := words }
  | 1 => .ok { s with baseFunctions := words }
  | 2 => .ok { s with otherFunctions := words }
  | 3 => .ok s
  | 4 => .ok s
  | slot => .error (.invalidWordListSlot slot)

/-- The token of a word. -/
def Settings.classify (s : Settings) (word : String) : Token :=
  if s.keywords.contains word then .keyword
  else if s.baseFunctions.contains word then .baseFunction
  else if s.otherFunctions.contains word then .otherFunction
  else .identifier

end Restyle.R
