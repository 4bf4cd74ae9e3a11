/-
Restyle.Main — the program: reads what a run needs from the system and
hands it to `Cli.run`.
-/
import Restyle.Cli.Run

namespace Restyle

/-- The cause of a failed read. -/
def fileErrorOf (e : IO.Error) : FileError :=
  match e with
  | .noFileOrDirectory .. => .notFound
  | .inappropriateType _ 21 _ => .isDirectory
  | .inappropriateType .. => .notDirectory
  | e => .other (toString e)

/-- Reads a file. -/
def readFile (path : String) : IO (Except FileError (Array UInt8)) := do
  try
    let bytes ← IO.FS.readBinFile path
    return .ok bytes.data
  catch e => return .error (fileErrorOf e)

/-- What a run with the given arguments can ask of the system. -/
def world (arguments : List String) : IO Cli.World := do
  let environment ← Cli.environmentNames.filterMapM fun name => do
    return (← IO.getEnv name).map (name, ·)
  let getVar name := environment.lookup name
  let files ← (Cli.paths getVar arguments).mapM fun path => do
    return (path, ← readFile path)
  return { getVar, read := fun path => (files.lookup path).getD (.error .notFound) }

end Restyle

/-- Runs the program. -/
def main (arguments : List String) : IO UInt32 := do
  let outcome := Restyle.Cli.run (← Restyle.world arguments) arguments
  (← IO.getStdout).putStr outcome.stdout
  (← IO.getStderr).putStr outcome.stderr
  return outcome.code.toUInt32
