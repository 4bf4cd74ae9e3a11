/-
Restyle.FileTree — files and directories in memory.

Paths are read as a file system reads them, from the root of the tree:
every part but the last must lead to a directory, and so must the last if
a slash follows it. Outside the tree there are directories, of which
nothing is known.
-/
import Restyle.Error
import Restyle.FileName

namespace Restyle

/-- Files by their path, and directories that may be empty. -/
structure FileTree where
  files : List (List String × Array UInt8)
  directories : List (List String)

namespace FileTree

/-- The parts of a path between slashes. -/
def parts (path : String) : List String := (FileName.parts path).map String.ofList

/-- The tree of the given files, by their paths; a path that ends in a slash is a
directory. -/
def ofList (entries : List (String × Array UInt8)) : FileTree :=
  entries.foldr (fun (path, bytes) tree =>
    match (parts path).reverse with
    | "" :: rest => { tree with directories := rest.reverse :: tree.directories }
    | _ => { tree with files := (parts path, bytes) :: tree.files }) ⟨[], []⟩

/-- Where a walk along a path has come to. -/
inductive Place where
  | inside (path : List String)
  | outside
  deriving DecidableEq, Repr

/-- Whether a directory of the tree has this path. -/
def isDirectory (t : FileTree) (path : List String) : Bool :=
  path == [] || t.directories.any (path.isPrefixOf ·) || t.files.any fun f =>
    path.isPrefixOf f.1 && path != f.1

/-- One step from a place. -/
def step (t : FileTree) (place : Place) (part : String) : Except FileError Place :=
  match place with
  | .outside => if ["", ".", ".."].contains part then .ok .outside else .error .notFound
  | .inside path =>
    if (t.files.lookup path).isSome then .error .notDirectory
    else if !t.isDirectory path then .error .notFound
    else if part = "" ∨ part = "." then .ok place
    else if part = ".." then .ok (if path = [] then .outside else .inside path.dropLast)
    else .ok (.inside (path ++ [part]))

/-- The content of a file. -/
def read (t : FileTree) (path : String) : Except FileError (Array UInt8) :=
  if path = "" then .error .notFound
  else
    let start := if path.toList.head? = some '/' then Place.outside else .inside []
    match (parts path).foldlM t.step start with
    | .error e => .error e
    | .ok .outside => .error .isDirectory
    | .ok (.inside path) =>
      match t.files.lookup path with
      | some bytes => .ok bytes
      | none => .error (if t.isDirectory path then .isDirectory else .notFound)

end FileTree

end Restyle
