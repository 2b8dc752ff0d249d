import AngularMotion.Number.Precision
import AngularMotion.Number.Shortest

/-!
# Quantities

A quantity is a whole number of any size, a truth value standing for one or zero, or a machine
number. Sums of whole numbers are exact; with a machine number the other operand becomes one.
Order and equality compare the exact values.

A count is given as a whole number or as a truth value, which counts as one or zero. Messages show
it as it was given.
-/

namespace AngularMotion

inductive Quantity where
  | whole (n : Int)
  | truth (b : Bool)
  | real (x : Float)

/-- What can go wrong in arithmetic with quantities. -/
inductive ArithmeticFault where
  /-- A whole number beyond the machine numbers. -/
  | tooLarge
  /-- No integer is near a value that is not a number. -/
  | notANumber
  | infinite
  /-- Division by zero, of whole numbers or with a machine number. -/
  | divisionByZero (whole : Bool)
  /-- Division by zero on the way to an integer quotient. -/
  | floorDivisionByZero (whole : Bool)
  /-- A quotient of whole numbers beyond the machine numbers. -/
  | quotientTooLarge
  /-- A function has no value at an infinite argument. -/
  | outsideDomain
  /-- A whole number does not fit into a word. -/
  | outsideWord
  /-- A format does not take a whole number of this size. -/
  | unstorable
deriving DecidableEq

/-- The text of a fault; words and formats refuse without one. -/
def ArithmeticFault.message? : ArithmeticFault → Option String
  | tooLarge => "int too large to convert to float"
  | notANumber => "cannot convert float NaN to integer"
  | infinite => "cannot convert float infinity to integer"
  | divisionByZero true => "division by zero"
  | divisionByZero false => "float division by zero"
  | floorDivisionByZero true => "integer division or modulo by zero"
  | floorDivisionByZero false => "float floor division by zero"
  | quotientTooLarge => "integer division result too large for a float"
  | outsideDomain => "math domain error"
  | outsideWord | unstorable => none

namespace Quantity

/-- The word for the kind of a quantity in messages. -/
def kindName : Quantity → String
  | whole _ => "int"
  | truth _ => "bool"
  | real _ => "float"

def text : Quantity → String
  | whole n => toString n
  | truth b => if b then "True" else "False"
  | real x => Shortest.text x

/-- The integer that a quantity stands for, if it is not a machine number. -/
def integer? : Quantity → Option Int
  | whole n => some n
  | truth b => some (if b then 1 else 0)
  | real _ => none

def isNaN : Quantity → Bool
  | real x => x.isNaN
  | _ => false

/-- The machine number nearest to an integer. -/
def floatOfInt (n : Int) : Except ArithmeticFault Float :=
  let size := Float.ofScientific n.natAbs false 0
  if size.isInf then .error .tooLarge
  else .ok (if n < 0 then -size else size)

def toFloat : Quantity → Except ArithmeticFault Float
  | whole n => floatOfInt n
  | truth b => .ok (if b then 1 else 0)
  | real x => .ok x

/-- Combines integers exactly and anything else as machine numbers. -/
def combine (exact : Int → Int → Int) (machine : Float → Float → Float) (a b : Quantity) :
    Except ArithmeticFault Quantity :=
  match a.integer?, b.integer? with
  | some m, some n => .ok (whole (exact m n))
  | _, _ => do
    let x ← a.toFloat
    let y ← b.toFloat
    return real (machine x y)

def add : Quantity → Quantity → Except ArithmeticFault Quantity := combine (· + ·) (· + ·)
def sub : Quantity → Quantity → Except ArithmeticFault Quantity := combine (· - ·) (· - ·)
def mul : Quantity → Quantity → Except ArithmeticFault Quantity := combine (· * ·) (· * ·)

/-- The machine number nearest to `± m / n`. The quotient is formed with more bits than a machine
number has, and its last bit is set if there is a remainder. -/
def nearestQuotient (negative : Bool) (m n : Nat) : Float :=
  let e : Int := (m.log2 : Int) - n.log2 - 56
  let numerator := m * Nat.pow 2 (-e).toNat
  let denominator := n * Nat.pow 2 e.toNat
  let bits := 2 * (numerator / denominator) + if numerator % denominator = 0 then 0 else 1
  Precision.double.ofBinary negative bits (e - 1)

/-- The quotient as a machine number. That of whole numbers is the nearest one to the exact value. -/
def div (a b : Quantity) : Except ArithmeticFault Quantity :=
  match a.integer?, b.integer? with
  | some m, some n =>
    if n = 0 then .error (.divisionByZero true)
    else
      let x := nearestQuotient (decide (m < 0) != decide (n < 0)) m.natAbs n.natAbs
      if x.isInf then .error .quotientTooLarge else .ok (real x)
  | _, _ => do
    let x ← a.toFloat
    let y ← b.toFloat
    if y == 0 then throw (.divisionByZero false)
    return real (x / y)

/-- The largest integer not above the quotient of two machine numbers. -/
def floorQuotient (x y : Float) : Except ArithmeticFault Int :=
  match Binary.ofFloat x, Binary.ofFloat y with
  | .finite negative m q, .finite negative' m' q' =>
    if (x / y).isInf then .error .infinite
    else
      let place := min q q'
      .ok (Int.fdiv (Binary.signed negative (m * Nat.pow 2 (q - place).toNat))
        (Binary.signed negative' (m' * Nat.pow 2 (q' - place).toNat)))
  | .finite negative m _, .infinite negative' =>
    .ok (if m = 0 ∨ negative = negative' then 0 else -1)
  | _, _ => .error .notANumber

/-- The largest integer not above the quotient. -/
def floorDiv (a b : Quantity) : Except ArithmeticFault Int :=
  match a.integer?, b.integer? with
  | some m, some n => if n = 0 then .error (.floorDivisionByZero true) else .ok (Int.fdiv m n)
  | _, _ => do
    let x ← a.toFloat
    let y ← b.toFloat
    if y == 0 then throw (.floorDivisionByZero false)
    floorQuotient x y

/-- Order of an integer and a machine number; `none` if that is not a number. -/
def compareFloat (n : Int) (x : Float) : Option Ordering :=
  match Binary.ofFloat x with
  | .notANumber => none
  | .infinite negative => some (if negative then .gt else .lt)
  | .finite negative m q => some (Binary.compareInt negative m q n).swap

/-- Order of the exact values; `none` if one of them is not a number. -/
def compare? : Quantity → Quantity → Option Ordering
  | real x, real y =>
    if x < y then some .lt else if y < x then some .gt else if x == y then some .eq else none
  | real x, b => (compareFloat (b.integer?.getD 0) x).map .swap
  | a, real y => compareFloat (a.integer?.getD 0) y
  | a, b => some (compare (a.integer?.getD 0) (b.integer?.getD 0))

def lt (a b : Quantity) : Bool := compare? a b = some .lt

def eq (a b : Quantity) : Bool := compare? a b = some .eq

end Quantity

/-! ## Counts -/

inductive Count where
  | number (n : Int)
  | truth (b : Bool)
deriving DecidableEq

namespace Count

def value : Count → Int
  | number n => n
  | truth b => if b then 1 else 0

def quantity : Count → Quantity
  | number n => .whole n
  | truth b => .truth b

def text (c : Count) : String := c.quantity.text

/-- The count that a quantity gives. -/
def ofQuantity? : Quantity → Option Count
  | .whole n => some (number n)
  | .truth b => some (truth b)
  | .real _ => none

end Count

end AngularMotion
