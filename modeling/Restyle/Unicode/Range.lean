/-
Restyle.Unicode.Range — sets of code points as lists of ranges.

The property tables of this folder follow Unicode 15.0.
-/

namespace Restyle.Unicode

/-- Whether `n` lies in one of the ranges, ends included. -/
def within (ranges : List (Nat × Nat)) (n : Nat) : Bool :=
  ranges.any fun r => r.1 ≤ n && n ≤ r.2

end Restyle.Unicode
