/-
Restyle.Catalogue — the languages at hand and the configuration that
their lexers get.

Names are unique up to the case of ASCII letters: a language that is
added takes the place of one of its name.
-/
import Restyle.Config
import Restyle.Highlighter
import Restyle.Language

namespace Restyle

/-- Languages, the earliest first, with a configuration. -/
structure Catalogue where
  languages : List Language
  config : Config
  deriving DecidableEq, Repr, Inhabited

namespace Catalogue

/-- Adds a language in place of any of its name. -/
def add (c : Catalogue) (l : Language) : Catalogue :=
  { c with
    languages := c.languages.filter (fun k => !Ascii.eqIgnoringCase k.name l.name) ++ [l] }

/-- The built-in languages under a configuration. -/
def standard (config : Config) : Catalogue :=
  [Language.haskell, Language.r].foldl add ⟨[], config⟩

/-- The language of a name. -/
def find? (c : Catalogue) (name : String) : Option Language :=
  c.languages.find? fun l => Ascii.eqIgnoringCase l.name name

/-- All names, in order. -/
def names (c : Catalogue) : List String := (c.languages.map (·.name)).mergeSort

/-- The language of a file by its path, or else by its first line if that is known. -/
def detect? (c : Catalogue) (path : String) (firstLine : Option String) : Option Language :=
  (c.languages.find? (·.matchesPath path)).or
    (firstLine.bind fun line => c.languages.find? (·.matchesFirstLine line))

/-- A configured lexer for the language of a name. -/
def newLexer (c : Catalogue) (name : String) : Except Error Lexer :=
  match c.find? name with
  | none => .error (.unknownLanguage name)
  | some l =>
    match c.config.apply l.newLexer with
    | (lexer, none) => .ok lexer
    | (_, some e) => .error e

/-- A highlighter for the language of a name. -/
def highlighter (c : Catalogue) (name : String) : Except Error Highlighter :=
  (c.newLexer name).map Highlighter.start

end Catalogue

end Restyle
