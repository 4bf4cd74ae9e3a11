/-
Restyle.Language — which files a grammar is for.

A language ties a grammar to file extensions, to a pattern for the first
line of files that have none, and to the word lists that its lexers start
with.
-/
import Restyle.FileName
import Restyle.Lexer
import Restyle.Pattern

namespace Restyle

/-- A language that files can be in. -/
structure Language where
  name : String
  grammar : Grammar
  extensions : List String := []
  /-- What the first line of a file in this language looks like. -/
  firstLine : Option Pattern := none
  /-- Word lists by slot. -/
  words : List (Nat × String) := []
  deriving DecidableEq, Repr, Inhabited

namespace Language

/-- Whether a path has one of the extensions, in any case. -/
def matchesPath (l : Language) (path : String) : Bool :=
  match FileName.extension? path with
  | none => false
  | some ext => l.extensions.any (Ascii.eqIgnoringCase · ext)

/-- Whether a first line marks its file as being in this language. -/
def matchesFirstLine (l : Language) (line : String) : Bool :=
  match l.firstLine with
  | none => false
  | some p => p.isMatch line

/-- Gives a lexer the words of a slot; a slot that it does not have is passed over. -/
def loadWords (lexer : Lexer) (entry : Nat × String) : Lexer :=
  match lexer.setWords entry.1 entry.2 with
  | .ok lexer => lexer
  | .error _ => lexer

/-- A lexer with the language's word lists. -/
def newLexer (l : Language) : Lexer := l.words.foldl loadWords (.bare l.grammar)

/-! ## The built-in languages -/

/-- Haskell, with literate sources and those for a preprocessor. -/
def haskell : Language where
  name := "Haskell"
  grammar := .haskell
  extensions := ["hs", "lhs", "hsc"]
  firstLine := Pattern.parse? "^#!.*\\b(runhaskell|runghc|stack)\\b"
  words :=
    [(0, "case class data default deriving do else foreign if import in infix infixl infixr "
        ++ "instance let module newtype of then type where forall mdo rec proc"),
     (1, "import export safe unsafe ccall stdcall capi cplusplus jvm dotnet interruptible "
        ++ "javascript")]

/-- R, S and S-PLUS. -/
def r : Language where
  name := "R"
  grammar := .r
  extensions := ["r", "R", "Rprofile"]
  firstLine := Pattern.parse? "^#!.*\\bRscript\\b"
  words :=
    [(0, "if else repeat while function for in next break TRUE FALSE NULL Inf NaN NA "
        ++ "NA_integer_ NA_real_ NA_character_ NA_complex_"),
     (1, "abs all any apply c cat character data.frame exists factor function invisible is.na "
        ++ "lapply length library list matrix max mean min names nchar numeric paste paste0 "
        ++ "print rep require return sapply seq seq_along stop sum switch unlist vector warning"),
     (2, "aes filter ggplot mutate select summarise")]

end Language

end Restyle
