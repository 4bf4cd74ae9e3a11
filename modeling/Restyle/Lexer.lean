/-
Restyle.Lexer — one interface to the lexers.

A lexer is configured by named switches and numbered word lists, styles
and folds ranges of a buffer, and is a plain value: what a call changes
is in the lexer and the buffer that it returns.

A range should start at a line start, after a line whose saved state is
up to date.
-/
import Restyle.Haskell.Folding
import Restyle.Haskell.Styling
import Restyle.R.Folding
import Restyle.R.Styling

namespace Restyle

/-- A grammar that can be lexed. -/
inductive Grammar where
  | haskell
  | r
  deriving DecidableEq, Repr, Inhabited

/-- A grammar's name. -/
def Grammar.name : Grammar → String
  | haskell => "Haskell"
  | r => "R"

/-- A switch as a list of settings shows it. -/
structure Switch where
  name : String
  description : String
  on : Bool
  deriving DecidableEq, Repr, Inhabited

/-- A configured lexer. The Haskell lexer also remembers the first import line that it
folded. -/
inductive Lexer where
  | haskell (settings : Haskell.Settings) (firstImport : Option Nat)
  | r (settings : R.Settings)
  deriving DecidableEq, Repr, Inhabited

namespace Lexer

/-- A lexer with default switches and empty word lists. -/
def bare : Grammar → Lexer
  | .haskell => haskell {} none
  | .r => r {}

/-- What it lexes. -/
def grammar : Lexer → Grammar
  | haskell .. => .haskell
  | r .. => .r

/-- Its name. -/
def name (l : Lexer) : String := l.grammar.name

/-! ## Settings -/

/-- The switches in the order of their declaration, as they are set. -/
def switches : Lexer → List Switch
  | haskell g _ => Haskell.properties.map fun p => ⟨p.name, p.description, p.get g.options⟩
  | r g => R.properties.map fun p => ⟨p.name, p.description, p.get g.options⟩

/-- The switch of a name. -/
def switch? (l : Lexer) (name : String) : Option Switch := l.switches.find? (·.name == name)

/-- What each word list holds, in slot order. -/
def wordListNames : Lexer → List String
  | haskell .. => Haskell.wordListNames
  | r .. => R.wordListNames

/-- Sets a switch from text. -/
def setProperty (l : Lexer) (name value : String) : Except Error Lexer :=
  match l with
  | haskell g first => (g.setProperty name value).map (haskell · first)
  | r g => (g.setProperty name value).map r

/-- Replaces the word list of a slot by the words of a text. -/
def setWords (l : Lexer) (slot : Nat) (words : String) : Except Error Lexer :=
  match l with
  | haskell g first => (g.setWords slot (.ofText words)).map (haskell · first)
  | r g => (g.setWords slot (.ofText words)).map r

/-! ## Styling and folding -/

/-- The state that the line before the one at `pos` saved; 0 on the first line. -/
def savedBefore (b : Buffer) (pos : Nat) : Int :=
  let line := b.text.lineOf pos
  if line = 0 then 0 else b.lineState (line - 1)

/-- How to style a range that starts in `token`. -/
def styling (l : Lexer) (b : Buffer) (start length : Nat) (token : Token) : Styling :=
  match l with
  | haskell g _ => Haskell.style g b.text start length token (savedBefore b start)
  | r g => R.style g b.text start length token (savedBefore b start)

/-- Styles a range that starts in `token`. -/
def lex (l : Lexer) (b : Buffer) (start length : Nat) (token : Token) : Buffer :=
  b.restyle (l.styling b start length token)

/-- Stores the fold levels of the lines of a range, by its styles. -/
def fold (l : Lexer) (b : Buffer) (start length : Nat) : Lexer × Buffer :=
  match l with
  | haskell g first =>
    let (levels, first) := Haskell.Folding.levels g.options b first start length
    (haskell g first, b.setLevels levels)
  | r g => (r g, b.setLevels (R.Folding.levels g.options b start length))

end Lexer

end Restyle
