/-
Restyle.R.LineState — what one line of R tells the next, and its packed
form.

Only a raw string stays open in a way that its token does not tell: by
which bracket and how many dashes it will close. Hosts store one signed
32-bit number per line, with the bracket in its low byte and the dashes
above; 0 means that no raw string is open.
-/

namespace Restyle.R

/-- How a raw string will close: a bracket, then dashes, then its quote. -/
structure Delimiter where
  /-- The closing bracket. -/
  close : Nat
  dashes : Nat
  deriving DecidableEq, Repr, Inhabited

namespace LineState

/-- The packed form. More dashes than a signed number holds are stored as none; fewer
wrap in their place. -/
def pack : Option Delimiter → Int
  | none => 0
  | some d =>
    let dashes : Int := if d.dashes < 0x80000000 then d.dashes else 0
    (dashes * 256).bmod 0x100000000 + d.close

/-- Reads a packed form; negative dashes mean none. -/
def unpack (raw : Int) : Option Delimiter :=
  let close := (raw % 256).toNat
  if close = 0 then none else some ⟨close, (raw / 256).toNat⟩

end LineState

end Restyle.R
