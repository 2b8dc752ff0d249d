import AngularMotion.Number.Precision

/-!
# The texts of a machine number

Of all decimals that round to a given machine number, the one with the fewest digits is written,
and of several with as few digits the nearest to the number.

A report shows a number with as many digits as its format can be trusted with: significant digits,
or places after the point for numbers below one. In scientific reports all numbers are shown with
significant digits.
-/

namespace AngularMotion

namespace Shortest

/-- The real numbers that round to `m * 2 ^ q`, from `low` to `high`; the ends belong to them when
`m` is even. -/
structure Interval where
  low : Decimal
  high : Decimal
  closed : Bool

/-- Below a power of two the neighbouring machine numbers lie twice as dense. -/
def Interval.around (m : Nat) (q : Int) : Interval where
  low := .ofBinary false (4 * m - if m = Nat.pow 2 52 ∧ -1074 < q then 1 else 2) (q - 2)
  high := .ofBinary false (4 * m + 2) (q - 2)
  closed := m % 2 = 0

def Interval.contains (i : Interval) (d : Decimal) : Bool :=
  match i.low.compareSize d, d.compareSize i.high with
  | .lt, .lt => true
  | .eq, .lt | .lt, .eq => i.closed
  | _, _ => false

/-- The decimal with `count` digits that lies in the interval, if there is one: the neighbour of
the value below or above on that grid, whichever is nearer. -/
def withDigits (value : Decimal) (i : Interval) (count : Nat) : Option Decimal :=
  let place := value.leadingExponent - count + 1
  let nearest := value.roundAt place
  let other :=
    if nearest.compareSize value = .gt then
      { nearest with coefficient := nearest.coefficient - 1 }
    else { nearest with coefficient := nearest.coefficient + 1 }
  if i.contains nearest then some nearest
  else if i.contains other then some other
  else none

/-- The shortest decimal that rounds to `m * 2 ^ q`; seventeen digits always suffice. -/
def decimal (m : Nat) (q : Int) : Decimal :=
  let value := Decimal.ofBinary false m q
  let interval := Interval.around m q
  ((List.range' 1 17).findSome? (withDigits value interval)).getD (value.roundDigits 17)

/-- Lays out digits whose leading one stands for `10 ^ e`: with a point when `-4 ≤ e < 16`, and
with an exponent otherwise. -/
def layout (digits : List Char) (e : Int) : String :=
  if -4 ≤ e ∧ e < 16 then
    if e < 0 then
      "0." ++ String.ofList (List.replicate ((-e).toNat - 1) '0' ++ digits)
    else
      let whole := digits.take (e.toNat + 1)
      let fraction := digits.drop (e.toNat + 1)
      String.ofList (whole ++ List.replicate (e.toNat + 1 - whole.length) '0') ++ "."
        ++ (if fraction.isEmpty then "0" else String.ofList fraction)
  else
    String.ofList (digits.take 1)
      ++ (if (digits.drop 1).isEmpty then "" else "." ++ String.ofList (digits.drop 1))
      ++ Decimal.exponentText e

/-- The written form of a machine number. -/
def text (x : Float) : String :=
  match Binary.ofFloat x with
  | .notANumber => "nan"
  | .infinite negative => if negative then "-inf" else "inf"
  | .finite negative m q =>
    let sign := if negative then "-" else ""
    if m = 0 then sign ++ "0.0"
    else
      let d := decimal m q
      sign ++ layout d.trimmedDigits d.leadingExponent

end Shortest

namespace Decimal

/-- A machine number with a fixed count of places after the point. -/
def placesText (places : Nat) (x : Float) : String :=
  match Binary.ofFloat x with
  | .finite negative m q => (ofBinary negative m q).fixedText places
  | _ => Shortest.text x

/-- A machine number with an exponent and a fixed count of places after the point. -/
def exponentialText (places : Nat) (x : Float) : String :=
  match Binary.ofFloat x with
  | .finite negative m q => (ofBinary negative m q).scientificText places
  | _ => Shortest.text x

end Decimal

/-! ## Numbers in reports -/

namespace Precision

/-- The decimal that a report shows for a finite value. -/
def reportDecimal (p : Precision) (scientific : Bool) (d : Decimal) : Decimal :=
  if scientific || 0 ≤ d.leadingExponent then d.roundDigits p.reportDigits
  else d.roundAt (-(p.reportPlaces : Int))

def reportText (p : Precision) (scientific : Bool) (x : Float) : String :=
  match Binary.ofFloat x with
  | .finite negative m q => (p.reportDecimal scientific (.ofBinary negative m q)).compactText
  | _ => Shortest.text x

end Precision

end AngularMotion
