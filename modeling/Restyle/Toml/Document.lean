/-
Restyle.Toml.Document — reading TOML documents, version 1.0 without dates.

A document is a list of statements, each on a line of its own: headers of
tables, headers of arrays of tables, and keys with values. Reading them in
order builds the tables; a statement that redefines something makes the
document invalid.
-/
import Restyle.Toml.Lexeme
import Restyle.Toml.Tree

namespace Restyle.Toml

/-! ## Values -/

/-- The items of an array from after a bracket or comma on. -/
def arrayItems (item : Reader Value) : Nat → Reader (List Value)
  | 0, _ => none
  | fuel + 1, text =>
    match skipLines text.length text with
    | ']' :: rest => some ([], rest)
    | text =>
      match item text with
      | none => none
      | some (v, rest) =>
        match skipLines rest.length rest with
        | ',' :: rest => (arrayItems item fuel rest).map fun (vs, rest) => (v :: vs, rest)
        | ']' :: rest => some ([v], rest)
        | _ => none

/-- A key, an equals sign and a value. -/
def assignment (item : Reader Value) : Reader (List String × Value) := fun text =>
  match key text with
  | some (path, '=' :: rest) => (item (skipBlanks rest)).map fun (v, rest) => ((path, v), rest)
  | _ => none

/-- The entries of an inline table from after its brace or a comma on. -/
def inlineEntriesRest (item : Reader Value) : Nat → Reader (List (List String × Value))
  | 0, _ => none
  | fuel + 1, text =>
    match assignment item text with
    | none => none
    | some (entry, rest) =>
      match skipBlanks rest with
      | ',' :: rest =>
        (inlineEntriesRest item fuel rest).map fun (entries, rest) => (entry :: entries, rest)
      | '\x7d' :: rest => some ([entry], rest)
      | _ => none

/-- Gives keys their values in a table, in order. -/
def assignAll : List (List String × Value) → Entries → Option Entries
  | [], entries => some entries
  | (path, v) :: rest, entries =>
    match entries.assign v (path.getLastD "") path.dropLast true with
    | none => none
    | some entries => assignAll rest entries

/-- An inline table from after its brace on. -/
def inlineTable (item : Reader Value) : Reader Value := fun text =>
  let read :=
    match skipBlanks text with
    | '\x7d' :: rest => some ([], rest)
    | _ => inlineEntriesRest item (text.length + 1) text
  match read with
  | none => none
  | some (assignments, rest) =>
    (assignAll assignments []).map fun entries => (.table entries.toTable, rest)

/-- A value that nests at most `depth` levels of arrays and inline tables. -/
def value : Nat → Reader Value
  | 0, text => scalar text
  | depth + 1, text =>
    match text with
    | '[' :: rest =>
      (arrayItems (value depth) (rest.length + 1) rest).map fun (vs, rest) => (.array vs, rest)
    | '\x7b' :: rest => inlineTable (value depth) rest
    | _ => scalar text

/-! ## Statements -/

/-- A statement of a document. -/
inductive Statement where
  /-- `[path]` -/
  | table (path : List String)
  /-- `[[path]]` -/
  | item (path : List String)
  /-- `path = value` -/
  | assign (path : List String) (value : Value)
  deriving Inhabited

/-- One statement without its line end. -/
def statement : Reader Statement := fun text =>
  match text with
  | '[' :: '[' :: rest =>
    match key rest with
    | some (path, ']' :: ']' :: rest) => some (.item path, rest)
    | _ => none
  | '[' :: rest =>
    match key rest with
    | some (path, ']' :: rest) => some (.table path, rest)
    | _ => none
  | _ =>
    (assignment (value (depthLimit - 1)) text).map fun ((path, v), rest) => (.assign path v, rest)

/-- The statements of a text, if it is made of them. -/
def statements : Nat → List Char → Option (List Statement)
  | 0, _ => none
  | fuel + 1, text =>
    match skipLines text.length text with
    | [] => some []
    | '#' :: rest => if (finishLine? ('#' :: rest)) = some [] then some [] else none
    | text =>
      match statement text with
      | none => none
      | some (s, rest) =>
        match finishLine? rest with
        | none => none
        | some rest => (statements fuel rest).map (s :: ·)

/-! ## Documents -/

/-- Carries out statements; `here` is the path of the open table. -/
def build : List Statement → List String → Entries → Option Entries
  | [], _, root => some root
  | .table path :: rest, _, root =>
    match root.updateAt Node.openTable path with
    | none => none
    | some root => build rest path root
  | .item path :: rest, _, root =>
    match root.updateAt Node.openItem path with
    | none => none
    | some root => build rest path root
  | .assign path v :: rest, here, root =>
    let before := path.dropLast
    let key := path.getLastD ""
    let changed :=
      if here = [] then root.assign v key before true
      else root.updateAt (Node.assign before key v) here
    match changed with
    | none => none
    | some root => build rest here root

/-- The text after a byte order mark. -/
def skipMark : List Char → List Char
  | '\uFEFF' :: rest => rest
  | text => text

/-- The table that a document describes, if it is valid. -/
def read? (text : String) : Option (List (String × Value)) :=
  let text := skipMark text.toList
  match statements (text.length + 1) text with
  | none => none
  | some ss => (build ss [] []).map Entries.toTable

end Restyle.Toml
