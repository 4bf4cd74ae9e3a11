/-
Restyle.FileName — the extension of a file name.

Parts of a path are separated by slashes; empty parts and single dots do
not count. The extension is what follows the last dot of the last part. A
part that starts with its only dot has none, and neither has `..`.
-/

namespace Restyle.FileName

/-- The parts of a path between slashes. -/
def parts (path : String) : List (List Char) := path.toList.splitOn '/'

/-- The name of the file that a path leads to. -/
def baseName? (path : String) : Option (List Char) :=
  match ((parts path).filter fun p => p ≠ [] ∧ p ≠ ['.']).getLast? with
  | some ['.', '.'] => none
  | name => name

/-- The extension of a file name, if it has one. -/
def extension? (path : String) : Option String :=
  match baseName? path with
  | none => none
  | some name =>
    let back := name.reverse
    let ext := back.takeWhile (· ≠ '.')
    match back.dropWhile (· ≠ '.') with
    | [] => none
    | ['.'] => none
    | _ => some (String.ofList ext.reverse)

end Restyle.FileName
