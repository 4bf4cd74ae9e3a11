/-
Restyle.Error — what can go wrong, by cause.

Lexing and folding never fail. Errors come from settings, from the
configuration, from files, and from the command line; each has its
wording here.
-/
import Restyle.Text.Quoted

namespace Restyle

/-- Why a file could not be read. -/
inductive FileError where
  | notFound
  | isDirectory
  | notDirectory
  /-- The file was to be text and is not valid UTF-8. -/
  | notText
  /-- A cause in the words of the system. -/
  | other (description : String)
  deriving DecidableEq, Repr, Inhabited

/-- The wording of a file error. -/
def FileError.message : FileError → String
  | notFound => "No such file or directory (os error 2)"
  | isDirectory => "Is a directory (os error 21)"
  | notDirectory => "Not a directory (os error 20)"
  | notText => "stream did not contain valid UTF-8"
  | other description => description

/-- What is wrong with a command line. -/
inductive UsageError where
  /-- An option that takes a language stands last. -/
  | needsLanguage (option : String)
  /-- An option that takes a setting stands last. -/
  | needsSetting (option : String)
  /-- A setting without an equals sign. -/
  | notSetting (argument : String)
  | unknownOption (argument : String)
  /-- A second file. -/
  | unexpectedArgument (argument : String)
  | noFile
  /-- No language was named and the file shows none. -/
  | undetected (file : String)
  deriving DecidableEq, Repr, Inhabited

/-- The wording of a usage error. -/
def UsageError.message : UsageError → String
  | needsLanguage option => option ++ " needs a language name"
  | needsSetting option => option ++ " needs KEY=VALUE"
  | notSetting argument => "expected KEY=VALUE, got " ++ argument
  | unknownOption argument => "unknown option " ++ argument
  | unexpectedArgument argument => "unexpected argument " ++ argument
  | noFile => "no input file given"
  | undetected file => "cannot detect the language of " ++ file ++ "; use --language"

/-- Everything that can go wrong. -/
inductive Error where
  | unknownLanguage (name : String)
  | unknownProperty (name : String)
  | invalidValue (name value : String)
  | invalidWordListSlot (slot : Nat)
  /-- The configuration is not a TOML document. -/
  | malformedConfig
  | file (cause : FileError)
  | usage (cause : UsageError)
  deriving DecidableEq, Repr, Inhabited

/-- The wording of an error. -/
def Error.message : Error → String
  | unknownLanguage name => "Unknown language: " ++ name
  | unknownProperty name => "Unknown property: " ++ name
  | invalidValue name value =>
    "Invalid value " ++ Quoted.encode value ++ " for property " ++ name
  | invalidWordListSlot slot => "No word list in slot " ++ toString slot
  | malformedConfig => "Invalid configuration: not a TOML document"
  | file cause => "I/O error: " ++ cause.message
  | usage cause => cause.message

end Restyle
