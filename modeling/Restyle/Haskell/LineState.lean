/-
Restyle.Haskell.LineState — what one line of Haskell tells the next, and
its packed form.

Hosts store one signed 32-bit number per line. Its low three bits hold
the mode and the rest the comment depth. A depth that does not fit a
signed number at all is stored as the greatest depth that does fit; one
that fits but loses bits in its place wraps.
-/

namespace Restyle.Haskell

/-- Which declaration the words at hand belong to. -/
inductive Mode where
  | code
  /-- After `import`: a module name, or `qualified` or `safe`. -/
  | importName
  /-- After the name of an imported module: `as` or `hiding`. -/
  | importTail
  /-- After `as`: the alias. -/
  | importAlias
  /-- After `module`. -/
  | moduleHeader
  /-- In a `foreign` declaration. -/
  | foreignDecl
  /-- After `type` or `data`. -/
  | typeDecl
  deriving DecidableEq, Repr, Inhabited

/-- The stored number of a mode. -/
def Mode.id : Mode → Int
  | code => 0
  | importName => 1
  | importTail => 2
  | importAlias => 3
  | moduleHeader => 4
  | foreignDecl => 5
  | typeDecl => 6

/-- The mode of a stored number; the number without one means code. -/
def Mode.ofId (n : Int) : Mode :=
  if n = 1 then importName
  else if n = 2 then importTail
  else if n = 3 then importAlias
  else if n = 4 then moduleHeader
  else if n = 5 then foreignDecl
  else if n = 6 then typeDecl
  else code

/-- What a line leaves open: its mode and the depth of nested comments. -/
structure LineState where
  mode : Mode
  depth : Nat
  deriving DecidableEq, Repr, Inhabited

namespace LineState

/-- The packed form. -/
def pack (s : LineState) : Int :=
  let depth : Int := if s.depth < 0x80000000 then s.depth else 0xFFFFFFF
  (depth * 8).bmod 0x100000000 + s.mode.id

/-- Reads a packed form; a negative depth means none. -/
def unpack (raw : Int) : LineState := ⟨Mode.ofId (raw % 8), (raw / 8).toNat⟩

end LineState

end Restyle.Haskell
