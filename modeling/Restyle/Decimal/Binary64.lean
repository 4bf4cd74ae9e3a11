/-
Restyle.Decimal.Binary64 — binary floating point numbers of 64 bits, in
exact arithmetic.

A finite number is `mantissa * 2 ^ exponent` with a mantissa below 2^53
and an exponent of at least -1074. A decimal becomes the nearest such
number, of two equally near ones that with the even mantissa, and one too
large becomes infinite.
-/

namespace Restyle

/-- A floating point number. -/
inductive Binary64 where
  | nan
  | infinite (negative : Bool)
  | finite (negative : Bool) (mantissa : Nat) (exponent : Int)
  deriving DecidableEq, Repr, Inhabited

namespace Binary64

/-- The quotient rounded to the nearest number, a half to the even one. -/
def roundDiv (num den : Nat) : Nat :=
  let q := num / den
  let r := num % den
  if den < 2 * r ∨ (2 * r = den ∧ q % 2 = 1) then q + 1 else q

/-- The exponent `b` with `2 ^ b ≤ num / den < 2 ^ (b + 1)`. -/
def binaryExponent (num den : Nat) : Int :=
  let guess : Int := (num.log2 : Int) - den.log2
  if den * Nat.pow 2 guess.toNat ≤ num * Nat.pow 2 (-guess).toNat then guess else guess - 1

/-- The number nearest to `num / den`, both positive. -/
def ofRatio (negative : Bool) (num den : Nat) : Binary64 :=
  let exponent := max (binaryExponent num den - 52) (-1074)
  let mantissa := roundDiv (num * Nat.pow 2 (-exponent).toNat) (den * Nat.pow 2 exponent.toNat)
  let (mantissa, exponent) :=
    if mantissa = Nat.pow 2 53 then (Nat.pow 2 52, exponent + 1) else (mantissa, exponent)
  if 971 < exponent then infinite negative else finite negative mantissa exponent

/-- The number nearest to `digits * 10 ^ exponent`. Decimals far outside the range of
finite numbers are settled by their size alone. -/
def ofDecimal (negative : Bool) (digits : Nat) (exponent : Int) : Binary64 :=
  let size := exponent + (Nat.toDigits 10 digits).length
  if digits = 0 ∨ size < -330 then finite negative 0 0
  else if 310 < size then infinite negative
  else ofRatio negative (digits * Nat.pow 10 exponent.toNat) (Nat.pow 10 (-exponent).toNat)

end Binary64

end Restyle
