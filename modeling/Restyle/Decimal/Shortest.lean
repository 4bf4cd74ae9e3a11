/-
Restyle.Decimal.Shortest — the fewest decimal digits that read back as a
floating point number.

Around a number lies the interval of reals that round to it; its ends
belong to it if the mantissa is even. Of the decimals inside with the
fewest digits the nearest is chosen, of two equally near ones the greater.
They are written without an exponent.
-/
import Restyle.Decimal.Binary64

namespace Restyle.Binary64

/-- A positive number and its interval as fractions over `den`. -/
structure Interval where
  low : Nat
  value : Nat
  high : Nat
  den : Nat
  closed : Bool

/-- The interval of `mantissa * 2 ^ exponent`. Below a power of two the next number is
half as far away. -/
def interval (mantissa : Nat) (exponent : Int) : Interval :=
  let unit := Nat.pow 2 (exponent - 2).toNat
  let below := if mantissa = Nat.pow 2 52 ∧ -1074 < exponent then 1 else 2
  { low := (4 * mantissa - below) * unit
    value := 4 * mantissa * unit
    high := (4 * mantissa + 2) * unit
    den := Nat.pow 2 (2 - exponent).toNat
    closed := mantissa % 2 = 0 }

/-- The decimal exponent `e` with `10 ^ (e - 1) ≤ num / den < 10 ^ e`. -/
def decimalExponent (num den : Nat) : Int :=
  if den ≤ num then (Nat.toDigits 10 (num / den)).length
  else
    let guess := (Nat.toDigits 10 (den / num)).length - 1
    if den ≤ num * Nat.pow 10 guess then 1 - (guess : Int) else -(guess : Int)

/-- The multiple of `10 ^ k` that is inside the interval and nearest to its value, as
its factor. -/
def onGrid? (i : Interval) (k : Int) : Option Nat :=
  let up := Nat.pow 10 (-k).toNat
  let step := i.den * Nat.pow 10 k.toNat
  let inside (g : Nat) : Bool :=
    if i.closed then i.low * up ≤ g * step && g * step ≤ i.high * up
    else i.low * up < g * step && g * step < i.high * up
  let g := i.value * up / step
  match inside g, inside (g + 1) with
  | true, true => some (if 2 * (i.value * up) < (2 * g + 1) * step then g else g + 1)
  | true, false => some g
  | false, true => some (g + 1)
  | false, false => none

/-- The first hit on the grids of `n`, `n + 1`, … digits, at most `fuel` of them. -/
def searchDigits (i : Interval) (top : Int) : Nat → Nat → Nat × Int
  | 0, n => (i.value * Nat.pow 10 (n - top).toNat / (i.den * Nat.pow 10 (top - n).toNat), top - n)
  | fuel + 1, n =>
    match onGrid? i (top - n) with
    | some g => (g, top - n)
    | none => searchDigits i top fuel (n + 1)

/-- The factor and power of ten of the shortest decimal. -/
def shortest (mantissa : Nat) (exponent : Int) : Nat × Int :=
  let i := interval mantissa exponent
  searchDigits i (decimalExponent i.value i.den) 17 1

/-- `factor * 10 ^ k` without an exponent; a whole number ends in `.0`. -/
def positional (factor : Nat) (k : Int) : String :=
  let digits := Nat.toDigits 10 factor
  if 0 ≤ k then String.ofList (digits ++ List.replicate k.toNat '0') ++ ".0"
  else
    let places := k.natAbs
    let digits := List.replicate (places + 1 - digits.length) '0' ++ digits
    let whole := digits.take (digits.length - places)
    let part := (digits.drop (digits.length - places)).reverse.dropWhile (· == '0')
    String.ofList (whole ++ ['.'] ++ (if part = [] then ['0'] else part.reverse))

/-- A number as text. -/
def toText : Binary64 → String
  | nan => "nan"
  | infinite negative => if negative then "-inf" else "inf"
  | finite negative mantissa exponent =>
    let text :=
      if mantissa = 0 then "0.0"
      else
        let (factor, k) := shortest mantissa exponent
        positional factor k
    if negative then "-" ++ text else text

end Restyle.Binary64
