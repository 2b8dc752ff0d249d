import AngularMotion.Number.Binary

/-!
# Exact decimals

Every finite machine number has a finite decimal expansion. A `Decimal` holds it exactly; it is
rounded to a place or to a count of digits, half to even, and then written out.
-/

namespace AngularMotion

/-- The value `± coefficient * 10 ^ exponent`. -/
structure Decimal where
  negative : Bool
  coefficient : Nat
  exponent : Int
deriving DecidableEq

namespace Decimal

/-- The decimal equal to `± m * 2 ^ q`: a negative power of two is a power of five over a power
of ten. -/
def ofBinary (negative : Bool) (m : Nat) (q : Int) : Decimal :=
  if 0 ≤ q then ⟨negative, m * Nat.pow 2 q.toNat, 0⟩
  else ⟨negative, m * Nat.pow 5 (-q).toNat, q⟩

/-- The decimal digits of the coefficient, leading digit first. -/
def digits (d : Decimal) : List Char := Nat.toDigits 10 d.coefficient

/-- The power of ten that the leading digit stands for. -/
def leadingExponent (d : Decimal) : Int := d.exponent + (d.digits.length : Int) - 1

/-- The nearest multiple of `10 ^ place`, a half going to the even neighbour. -/
def roundAt (d : Decimal) (place : Int) : Decimal :=
  if place ≤ d.exponent then
    { d with
      coefficient := d.coefficient * Nat.pow 10 (d.exponent - place).toNat, exponent := place }
  else
    { d with
      coefficient := roundDiv d.coefficient (Nat.pow 10 (place - d.exponent).toNat)
      exponent := place }

/-- The nearest decimal with `count` significant digits. -/
def roundDigits (d : Decimal) (count : Nat) : Decimal :=
  if d.coefficient = 0 then { d with exponent := 0 }
  else d.roundAt (d.leadingExponent - count + 1)

/-- Order of two decimals by their values without the signs. -/
def compareSize (a b : Decimal) : Ordering :=
  let place := min a.exponent b.exponent
  compare (a.roundAt place).coefficient (b.roundAt place).coefficient

/-- The sign of a written number: nothing or a minus. -/
def signText (d : Decimal) : String := if d.negative then "-" else ""

/-- Digits with `places` of them after the point. -/
def fixedText (d : Decimal) (places : Nat) : String :=
  let digits := (d.roundAt (-(places : Int))).digits
  let padded := List.replicate (places + 1 - digits.length) '0' ++ digits
  let whole := padded.take (padded.length - places)
  let fraction := padded.drop (padded.length - places)
  d.signText ++ String.ofList whole ++ (if places = 0 then "" else "." ++ String.ofList fraction)

/-- A number with at least `width` digits. -/
def paddedText (width n : Nat) : String :=
  let digits := Nat.toDigits 10 n
  String.ofList (List.replicate (width - digits.length) '0' ++ digits)

/-- A decimal exponent with its sign and at least two digits. -/
def exponentText (e : Int) : String :=
  (if e < 0 then "e-" else "e+") ++ paddedText 2 e.natAbs

/-- The leading digit, a point, `places` more digits and the exponent. -/
def scientificText (d : Decimal) (places : Nat) : String :=
  let rounded := d.roundDigits (places + 1)
  let digits := (rounded.digits ++ List.replicate places '0').take (places + 1)
  d.signText ++ String.ofList (digits.take 1)
    ++ (if places = 0 then "" else "." ++ String.ofList (digits.drop 1))
    ++ exponentText rounded.leadingExponent

/-- The digits without the zeros at their end. -/
def trimmedDigits (d : Decimal) : List Char :=
  (d.digits.reverse.dropWhile (· == '0')).reverse

/-- The normal form of reports: `0`, or the leading digit, a point and the other digits if there
are any, and the exponent as a plain integer. -/
def compactText (d : Decimal) : String :=
  match d.trimmedDigits with
  | [] => "0"
  | lead :: rest =>
    d.signText ++ String.singleton lead
      ++ (if rest.isEmpty then "" else "." ++ String.ofList rest)
      ++ "e" ++ toString d.leadingExponent

example : (ofBinary false 1 (-1)).fixedText 3 = "0.500" := by decide +kernel
example : (ofBinary true 5 (-3)).fixedText 2 = "-0.62" := by decide +kernel
example : (ofBinary false 9999 0).scientificText 2 = "1.00e+04" := by decide +kernel
example : (ofBinary true 2469 (-1)).compactText = "-1.2345e3" := by decide +kernel

end Decimal

end AngularMotion
