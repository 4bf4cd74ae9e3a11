/-
Restyle.Haskell.Settings — the switches and word lists of the Haskell
lexer.
-/
import Restyle.Settings
import Restyle.WordList

namespace Restyle.Haskell

/-- The switches. -/
structure Options where
  /-- Names and literals may end in `#`. -/
  magicHash : Bool := true
  /-- A single quote may start a quoted name. -/
  allowQuotes : Bool := true
  /-- `safe` is a word of import declarations. -/
  importSafe : Bool := true
  /-- Only the command word of a preprocessor line is styled as one. -/
  commandWordOnly : Bool := false
  fold : Bool := false
  /-- Blank lines keep their mark inside folds. -/
  foldCompact : Bool := false
  /-- A block of imports folds. -/
  foldImports : Bool := false
  deriving DecidableEq, Repr, Inhabited

/-- The switches by name. -/
def properties : List (Property Options) :=
  [{ name := "lexer.haskell.allow.hash"
     description := "Set to 1 to allow the '#' character at the end of identifiers and "
      ++ "literals (GHC MagicHash extension)"
     get := (·.magicHash)
     set := fun on o => { o with magicHash := on } },
   { name := "lexer.haskell.allow.quotes"
     description := "Set to 1 to enable highlighting of Template Haskell name quotations "
      ++ "and promoted constructors (GHC TemplateHaskell and DataKinds extensions)"
     get := (·.allowQuotes)
     set := fun on o => { o with allowQuotes := on } },
   { name := "lexer.haskell.import.safe"
     description := "Set to 1 to allow keyword \"safe\" in imports (GHC SafeHaskell extension)"
     get := (·.importSafe)
     set := fun on o => { o with importSafe := on } },
   { name := "styling.within.preprocessor"
     description := "Determines whether all preprocessor code is styled in the preprocessor "
      ++ "style (0, the default) or only from the initial # to the end of the command word (1)"
     get := (·.commandWordOnly)
     set := fun on o => { o with commandWordOnly := on } },
   { name := "fold"
     description := "Set to 1 to enable folding"
     get := (·.fold)
     set := fun on o => { o with fold := on } },
   { name := "fold.compact"
     description := "Set to 1 to keep blank lines flagged white inside folds"
     get := (·.foldCompact)
     set := fun on o => { o with foldCompact := on } },
   { name := "fold.haskell.imports"
     description := "Set to 1 to enable folding of import declarations"
     get := (·.foldImports)
     set := fun on o => { o with foldImports := on } }]

/-- What each word list holds, in slot order. -/
def wordListNames : List String := ["Keywords", "FFI"]

/-- The switches and word lists together. -/
structure Settings where
  options : Options := {}
  keywords : WordList := .empty
  /-- Words with a meaning in `foreign` declarations. -/
  foreignWords : WordList := .empty
  deriving DecidableEq, Repr, Inhabited

/-- Sets a switch from text. -/
def Settings.setProperty (s : Settings) (name value : String) : Except Error Settings :=
  (Property.assign properties s.options name value).map fun options => { s with options }

/-- Replaces the words of a slot. -/
def Settings.setWords (s : Settings) (slot : Nat) (words : WordList) : Except Error Settings :=
  match slot with
  | 0 => .ok { s with keywords := words }
  | 1 => .ok { s with foreignWords := words }
  | slot => .error (.invalidWordListSlot slot)

end Restyle.Haskell
