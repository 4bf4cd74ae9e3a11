/-
Restyle.Cli.Run — one run of the program, as a function of its arguments,
its environment and the files it can read.

Arguments are checked first, then the configuration is loaded, then the
file; a language is named or detected, the settings are made, and only a
run that succeeds so far prints anything.
-/
import Restyle.Catalogue
import Restyle.Cli.Arguments
import Restyle.Cli.Report

namespace Restyle.Cli

/-- What a run can ask of its surroundings. -/
structure World where
  /-- An environment variable, if it is set. -/
  getVar : String → Option String
  /-- The content of a file. -/
  read : String → Except FileError (Array UInt8)

/-- What a run leaves behind. -/
structure Outcome where
  code : Nat
  stdout : String
  stderr : String
  deriving DecidableEq, Repr, Inhabited

/-! ## Configuration -/

/-- A file in a directory. -/
def inDirectory (directory name : String) : String :=
  match directory.toList.getLast? with
  | none => name
  | some '/' => directory ++ name
  | _ => directory ++ "/" ++ name

/-- Where the configuration is: where it is said to be, or else in the home directory. -/
def configPath? (getVar : String → Option String) : Option String :=
  match getVar "FOLDLEX_CONFIG" with
  | some path => some path
  | none => (getVar "HOME").map (inDirectory · ".foldlex.toml")

/-- The configuration of a file. A file that is not there says nothing. -/
def loadFrom (w : World) (path : String) : Except Error Config :=
  match w.read path with
  | .error .notFound => .ok {}
  | .error e => .error (.file e)
  | .ok bytes =>
    match Utf8.toText? bytes with
    | none => .error (.file .notText)
    | some text => Config.parse text

/-- The configuration of the run. -/
def loadConfig (w : World) : Except Error Config :=
  match configPath? w.getVar with
  | none => .ok {}
  | some path => loadFrom w path

/-! ## The file -/

/-- The first line of a file, if it is text. -/
def firstLine? (bytes : Array UInt8) : Option String :=
  Utf8.toText? (bytes.toList.takeWhile fun b => b != lf && b != cr).toArray

/-- The language that a file is to be styled as. -/
def languageOf (c : Catalogue) (o : Options) (bytes : Array UInt8) : Except Error String :=
  match o.language with
  | some name => .ok name
  | none =>
    match c.detect? o.file (firstLine? bytes) with
    | some l => .ok l.name
    | none => .error (.usage (.undetected o.file))

/-- A buffer of the file's text, styled. -/
def styled (h : Highlighter) (bytes : Array UInt8) : Buffer :=
  let b := Buffer.ofText (.ofBytes bytes .utf8)
  (h.ensure b b.size).2

/-- A buffer as the output that is asked for. -/
def render (colours : Bool) (output : Output) (b : Buffer) : String :=
  match output with
  | .coloured => coloured colours b
  | .tokens => tokens b
  | .folds => folds b

/-- Whether colours may be used. -/
def coloursOn (w : World) : Bool := ((w.getVar "NO_COLOR").getD "") == ""

/-- What a run prints. -/
def report (w : World) (arguments : List String) : Except Error String := do
  let o ← (parse arguments).mapError Error.usage
  let config ← loadConfig w
  let bytes ← (w.read o.file).mapError Error.file
  let catalogue := Catalogue.standard config
  let language ← languageOf catalogue o bytes
  let h ← catalogue.highlighter language
  let h ← o.properties.foldlM (fun h p => h.setProperty p.1 p.2) h
  return render (coloursOn w) o.output (styled h bytes)

/-- The environment variables that a run can ask for. -/
def environmentNames : List String := ["FOLDLEX_CONFIG", "HOME", "NO_COLOR"]

/-- The files that a run can ask for. -/
def paths (getVar : String → Option String) (arguments : List String) : List String :=
  match parse arguments with
  | .error _ => []
  | .ok o => (configPath? getVar).toList ++ [o.file]

/-- One run. Help and version are only asked for by the first argument. -/
def run (w : World) (arguments : List String) : Outcome :=
  match arguments with
  | "--help" :: _ => ⟨0, usageText (configPath? w.getVar), ""⟩
  | "-h" :: _ => ⟨0, usageText (configPath? w.getVar), ""⟩
  | "--version" :: _ => ⟨0, versionText, ""⟩
  | "-V" :: _ => ⟨0, versionText, ""⟩
  | _ =>
    match report w arguments with
    | .ok text => ⟨0, text, ""⟩
    | .error e => ⟨1, "", "Error: " ++ e.message ++ "\n"⟩

end Restyle.Cli
