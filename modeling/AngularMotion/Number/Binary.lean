/-!
# The exact value of a machine number

`Binary.ofFloat` reads a machine number as a signed integer times a power of two. Rounding to a
narrower format, printing and comparison with whole numbers all work on that value, in exact
integer arithmetic.
-/

namespace AngularMotion

/-- The quotient `numerator / denominator` to the nearest integer, a half going to the even
neighbour. -/
def roundDiv (numerator denominator : Nat) : Nat :=
  let quotient := numerator / denominator
  let twice := 2 * (numerator % denominator)
  if twice < denominator then quotient
  else if denominator < twice then quotient + 1
  else quotient + quotient % 2

theorem roundDiv_one (n : Nat) : roundDiv n 1 = n := by
  simp [roundDiv, Nat.mod_one]

/-- A machine number as a mathematical object. -/
inductive Binary where
  | notANumber
  | infinite (negative : Bool)
  /-- The value `± significand * 2 ^ exponent`. -/
  | finite (negative : Bool) (significand : Nat) (exponent : Int)
deriving DecidableEq

namespace Binary

/-- Reads the sign, the eleven exponent bits and the fifty-two fraction bits. -/
def ofFloat (x : Float) : Binary :=
  let bits : Nat := x.toBits.toNat
  let negative := decide (Nat.pow 2 63 ≤ bits)
  let field : Nat := bits / Nat.pow 2 52 % Nat.pow 2 11
  let fraction : Nat := bits % Nat.pow 2 52
  if field = 2047 then
    if fraction = 0 then infinite negative else notANumber
  else if field = 0 then finite negative fraction (-1074)
  else finite negative (Nat.pow 2 52 + fraction) ((field : Int) - 1075)

/-- An integer with its sign. -/
def signed (negative : Bool) (n : Nat) : Int :=
  if negative then -(n : Int) else n

/-- Order of a finite value and an integer. -/
def compareInt (negative : Bool) (m : Nat) (q n : Int) : Ordering :=
  if 0 ≤ q then compare (signed negative (m * Nat.pow 2 q.toNat)) n
  else compare (signed negative m) (n * Int.pow 2 (-q).toNat)

end Binary

end AngularMotion
