/-
Restyle.Toml.Tree — tables while a document is read, and who may add to
them.

A table is written out once, by its header or by its braces. Before that
it may come into being on the way to another: by the path of a header, or
by a dotted key. A header may still take over the first kind; a dotted key
may go on through both, but ends only in its own kind. The path to a table
goes through the last item of an array of tables. Values are closed.
-/
import Restyle.Toml.Value

namespace Restyle.Toml

/-- How a table came into being. -/
inductive Origin where
  /-- Written out under its header. -/
  | header
  /-- On the path of a header. -/
  | path
  /-- On the path of a dotted key. -/
  | dotted
  deriving DecidableEq, Repr, Inhabited

/-- What a key holds while a document is read. -/
inductive Node where
  | value (v : Value)
  | table (origin : Origin) (entries : List (String × Node))
  /-- An array of tables, the last one first. -/
  | tables (last : List (String × Node)) (before : List (List (String × Node)))
  deriving Inhabited

/-- The entries of a table while a document is read. -/
abbrev Entries : Type := List (String × Node)

/-- What a key holds in a table. -/
def Entries.get? (entries : Entries) (key : String) : Option Node := entries.lookup key

/-- Sets what a key holds in a table. -/
def Entries.set (entries : Entries) (key : String) (node : Node) : Entries :=
  (key, node) :: entries.filter (·.1 ≠ key)

/-! ## Dotted keys -/

/-- Gives a key a value at the end of a path of dotted keys. `own` says whether the
table at hand was made by such a path. -/
def Entries.assign (value : Value) (key : String) : List String → Bool → Entries → Option Entries
  | [], own, entries =>
    if own ∧ (entries.get? key).isNone then some (entries.set key (.value value)) else none
  | part :: path, _, entries =>
    match entries.get? part with
    | none =>
      (assign value key path true []).map fun inner => entries.set part (.table .dotted inner)
    | some (.value _) => none
    | some (.table .header _) => none
    | some (.table origin inner) =>
      (assign value key path (origin == .dotted) inner).map fun inner =>
        entries.set part (.table origin inner)
    | some (.tables last before) =>
      (assign value key path false last).map fun last => entries.set part (.tables last before)

/-! ## Headers -/

/-- Changes what the last key of a header's path holds; tables on the way come into
being. -/
def Entries.updateAt (change : Option Node → Option Node) : List String → Entries → Option Entries
  | [], _ => none
  | [key], entries => (change (entries.get? key)).map (entries.set key)
  | part :: path, entries =>
    match entries.get? part with
    | none => (updateAt change path []).map fun inner => entries.set part (.table .path inner)
    | some (.value _) => none
    | some (.table origin inner) =>
      (updateAt change path inner).map fun inner => entries.set part (.table origin inner)
    | some (.tables last before) =>
      (updateAt change path last).map fun last => entries.set part (.tables last before)

/-- Starts the table of a header. -/
def Node.openTable : Option Node → Option Node
  | none => some (.table .header [])
  | some (.table .path entries) => some (.table .header entries)
  | _ => none

/-- Starts the next table of an array of tables. -/
def Node.openItem : Option Node → Option Node
  | none => some (.tables [] [])
  | some (.tables last before) => some (.tables [] (last :: before))
  | _ => none

/-- Gives a dotted key a value in the table that is open. -/
def Node.assign (path : List String) (key : String) (value : Value) : Option Node → Option Node
  | some (.table origin entries) => (Entries.assign value key path true entries).map (.table origin)
  | some (.tables last before) => (Entries.assign value key path true last).map (.tables · before)
  | _ => none

/-! ## Finished tables -/

/-- Entries in the order of their keys. -/
def sortEntries (entries : List (String × Value)) : List (String × Value) :=
  entries.mergeSort fun a b => a.1 ≤ b.1

mutual

/-- The value of a finished node. -/
def Node.toValue : Node → Value
  | .value v => v
  | .table _ entries => .table (sortEntries (toValues entries))
  | .tables last before => .array (toItems before ++ [.table (sortEntries (toValues last))])

/-- The values of finished entries. -/
def toValues : List (String × Node) → List (String × Value)
  | [] => []
  | (key, node) :: rest => (key, node.toValue) :: toValues rest

/-- The items of a finished array of tables, in order. -/
def toItems : List (List (String × Node)) → List Value
  | [] => []
  | entries :: rest => toItems rest ++ [.table (sortEntries (toValues entries))]

end

/-- The table of finished entries. -/
def Entries.toTable (entries : Entries) : List (String × Value) := sortEntries (toValues entries)

end Restyle.Toml
