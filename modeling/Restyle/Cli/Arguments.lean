/-
Restyle.Cli.Arguments — the command line.

Options may come in any order around exactly one file. An option that
takes a value takes the next argument, whatever it looks like. The last
language and the last kind of output count; settings add up. The first
argument that cannot be understood is the error.
-/
import Restyle.Error
import Restyle.Unicode.WhiteSpace

namespace Restyle.Cli

/-- What to print. -/
inductive Output where
  | coloured
  | tokens
  | folds
  deriving DecidableEq, Repr, Inhabited

/-- A command line as understood so far. -/
structure Draft where
  language : Option String := none
  properties : List (String × String) := []
  output : Output := .coloured
  file : Option String := none
  deriving DecidableEq, Repr, Inhabited

/-- What a command line asks for. -/
structure Options where
  language : Option String
  /-- Switches to set, in order. -/
  properties : List (String × String)
  output : Output
  file : String
  deriving DecidableEq, Repr, Inhabited

/-- A setting as its key and value: what stands before and after the first equals sign,
without white space at the ends. -/
def splitSetting (text : String) : Option (String × String) :=
  let cs := text.toList
  match cs.dropWhile (· ≠ '=') with
  | [] => none
  | _ :: value =>
    some (Unicode.trim (String.ofList (cs.takeWhile (· ≠ '='))),
      Unicode.trim (String.ofList value))

/-- Whether an argument that is no option here was meant as one. -/
def looksLikeOption (argument : String) : Bool :=
  match argument.toList with
  | '-' :: _ :: _ => true
  | _ => false

/-- Takes an argument that is no option. -/
def Draft.takeFile (d : Draft) (argument : String) : Except UsageError Draft :=
  if looksLikeOption argument then .error (.unknownOption argument)
  else if d.file.isSome then .error (.unexpectedArgument argument)
  else .ok { d with file := some argument }

/-- Understands arguments one after another. -/
def read (d : Draft) : List String → Except UsageError Draft
  | [] => .ok d
  | argument :: rest =>
    if argument = "-l" ∨ argument = "--language" then
      match rest with
      | [] => .error (.needsLanguage argument)
      | language :: rest => read { d with language := some language } rest
    else if argument = "-s" ∨ argument = "--set" then
      match rest with
      | [] => .error (.needsSetting argument)
      | setting :: rest =>
        match splitSetting setting with
        | none => .error (.notSetting setting)
        | some property => read { d with properties := d.properties ++ [property] } rest
    else if argument = "-t" ∨ argument = "--tokens" then read { d with output := .tokens } rest
    else if argument = "-f" ∨ argument = "--folds" then read { d with output := .folds } rest
    else
      match d.takeFile argument with
      | .error e => .error e
      | .ok d => read d rest

/-- What a command line asks for. -/
def parse (arguments : List String) : Except UsageError Options :=
  match read {} arguments with
  | .error e => .error e
  | .ok d =>
    match d.file with
    | none => .error .noFile
    | some file =>
      .ok { language := d.language, properties := d.properties, output := d.output, file }

end Restyle.Cli
