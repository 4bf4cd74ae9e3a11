/-
Restyle.Config — settings from a configuration file.

Example:

    # Applied to every lexer that has the switch
    [properties]
    "fold.compact" = false

    [languages.haskell.properties]
    fold = true

    # Word lists by slot, in place of the built-in ones
    [languages.r.keywords]
    2 = "ggplot aes geom_point"

Sections and their entries are taken in the order of their keys. Language
names are compared in lower case; of two that agree the later one counts.
A configuration becomes a list of assignments for a lexer, which are made
one after another up to the first that fails.
-/
import Restyle.Lexer
import Restyle.Toml.Document

namespace Restyle

/-- Settings of one language. -/
structure LanguageConfig where
  properties : List (String × String) := []
  /-- Word lists by slot. -/
  words : List (Nat × String) := []
  deriving DecidableEq, Repr, Inhabited

/-- A configuration. -/
structure Config where
  /-- For every lexer that has the switch. -/
  properties : List (String × String) := []
  /-- By lower case language name. -/
  languages : List (String × LanguageConfig) := []
  deriving DecidableEq, Repr, Inhabited

namespace Config

/-! ## Reading -/

/-- The error for a value that is not what its place asks for. -/
def invalid (name : String) (v : Toml.Value) : Error := .invalidValue name v.inline

/-- The entries of a value that must be a table. -/
def tableOf (name : String) : Toml.Value → Except Error (List (String × Toml.Value))
  | .table entries => .ok entries
  | v => .error (invalid name v)

/-- The text of a value that a switch can be set from. -/
def switchText (name : String) : Toml.Value → Except Error String
  | .boolean b => .ok (if b then "1" else "0")
  | .integer n => .ok (toString n)
  | .string s => .ok s
  | v => .error (invalid name v)

/-- The switches of a section. -/
def readProperties (name : String) (v : Toml.Value) : Except Error (List (String × String)) :=
  (tableOf name v).bind fun entries =>
    entries.mapM fun (key, v) => (switchText key v).map (key, ·)

/-- A slot number: decimal digits, with or without a plus sign, below 2^64. -/
def slotOf? (key : String) : Option Nat :=
  let digits := match key.toList with
    | '+' :: rest => rest
    | cs => cs
  let n := Toml.digitsValue 10 digits
  if digits ≠ [] ∧ digits.all Toml.isDecimal ∧ n < 0x10000000000000000 then some n else none

/-- The text of an array item that must be a string. -/
def itemText? : Toml.Value → Option String
  | .string s => some s
  | _ => none

/-- The words of a list: a text of words, or an array of such texts. -/
def wordsText? : Toml.Value → Option String
  | .string s => some s
  | .array items => (items.mapM itemText?).map (" ".intercalate ·)
  | _ => none

/-- The word lists of a section. -/
def readWords (language : String) (v : Toml.Value) : Except Error (List (Nat × String)) :=
  (tableOf language v).bind fun entries =>
    entries.mapM fun (key, v) =>
      match slotOf? key, wordsText? v with
      | some slot, some words => .ok (slot, words)
      | _, _ => .error (invalid (language ++ ".keywords." ++ key) v)

/-- Reads an entry of a table if it is there. -/
def readEntry {α : Type} (entries : List (String × Toml.Value)) (key : String)
    (read : Toml.Value → Except Error (List α)) : Except Error (List α) :=
  match entries.lookup key with
  | none => .ok []
  | some v => read v

/-- The settings of a language, as its section is headed. -/
def readLanguage (name : String) (v : Toml.Value) : Except Error LanguageConfig := do
  let entries ← tableOf name v
  let properties ← readEntry entries "properties" (readProperties name)
  let words ← readEntry entries "keywords" (readWords name)
  return { properties, words }

/-- Sets the settings of a language, in place of any it has. -/
def setLanguage (languages : List (String × LanguageConfig)) (name : String)
    (settings : LanguageConfig) : List (String × LanguageConfig) :=
  languages.filter (·.1 ≠ name) ++ [(name, settings)]

/-- Reads the sections of languages one after another. -/
def readLanguages (sections : List (String × Toml.Value)) :
    Except Error (List (String × LanguageConfig)) :=
  sections.foldlM (fun languages (name, v) =>
    (readLanguage name v).map (setLanguage languages (Unicode.toLower name))) []

/-- The configuration that a document describes. -/
def ofTable (entries : List (String × Toml.Value)) : Except Error Config := do
  let properties ← readEntry entries "properties" (readProperties "properties")
  let languages ← readEntry entries "languages" fun v =>
    (tableOf "languages" v).bind readLanguages
  return { properties, languages }

/-- Reads a configuration. -/
def parse (text : String) : Except Error Config :=
  match Toml.read? text with
  | none => .error .malformedConfig
  | some entries => ofTable entries

/-! ## Applying -/

/-- One setting to make. -/
inductive Assignment where
  | property (name value : String)
  | words (slot : Nat) (text : String)
  deriving DecidableEq, Repr, Inhabited

/-- Makes one setting. -/
def Assignment.apply (a : Assignment) (l : Lexer) : Except Error Lexer :=
  match a with
  | property name value => l.setProperty name value
  | words slot text => l.setWords slot text

/-- The settings of a language's section. -/
def LanguageConfig.assignments (c : LanguageConfig) : List Assignment :=
  c.properties.map (fun p => .property p.1 p.2) ++ c.words.map fun p => .words p.1 p.2

/-- The settings for a lexer: of the global switches those it has, then everything in its
language's section. -/
def assignments (c : Config) (l : Lexer) : List Assignment :=
  (c.properties.filter fun p => (l.switch? p.1).isSome).map (fun p => .property p.1 p.2)
    ++ ((c.languages.lookup (Unicode.toLower l.name)).map LanguageConfig.assignments).getD []

/-- Makes settings up to the first that fails; the settings before it stay. -/
def applyAll : List Assignment → Lexer → Lexer × Option Error
  | [], l => (l, none)
  | a :: rest, l =>
    match a.apply l with
    | .ok l => applyAll rest l
    | .error e => (l, some e)

/-- Configures a lexer. -/
def apply (c : Config) (l : Lexer) : Lexer × Option Error := applyAll (c.assignments l) l

end Config

end Restyle
