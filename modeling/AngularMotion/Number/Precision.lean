import AngularMotion.Number.Decimal

/-!
# Storage precisions

Numbers are stored in one of four binary formats. Rounding to a format goes to the nearest
representable number, a half to the even one, and overflows to infinity. Arithmetic knows two of the
formats, `single` and `double`, and takes a number too small to have all its bits there for zero.
-/

namespace AngularMotion

/-- A binary format, narrow ones first: the two sixteen-bit formats spend their bits on the
significand (`half`) or on the exponent (`brain`). -/
inductive Precision where
  | half
  | brain
  | single
  | double
deriving DecidableEq

namespace Precision

def all : List Precision := [half, brain, single, double]

/-- The name under which a format is known. -/
def name : Precision → String
  | half => "float16"
  | brain => "bfloat16"
  | single => "float32"
  | double => "float64"

def ofName? (s : String) : Option Precision := all.find? (·.name == s)

theorem ofName?_name (p : Precision) : ofName? p.name = some p := by
  cases p <;> decide

/-- Other names of formats of numbers, storage formats and others, with the usual ones. -/
def otherNames : List (String × String) :=
  [("double", "float64"), ("single", "float32"), ("float_", "float64"), ("bool_", "bool"),
   ("int_", "int64"), ("uint", "uint64"), ("complex_", "complex128"), ("cdouble", "complex128"),
   ("csingle", "complex64")]

/-- The usual name of a format that may be given by another. -/
def canonicalName (s : String) : String :=
  ((otherNames.find? (·.1 == s)).map (·.2)).getD s

/-- Bits of the significand, the leading one included. -/
def significandBits : Precision → Nat
  | half => 11
  | brain => 8
  | single => 24
  | double => 53

/-- The largest power of two below infinity. -/
def maxExponent : Precision → Int
  | half => 15
  | brain => 127
  | single => 127
  | double => 1023

/-- The exponent of the smallest positive number. -/
def minExponent (p : Precision) : Int := 2 - p.maxExponent - p.significandBits

/-- The format in which arithmetic on a format is done. -/
def arithmetic : Precision → Precision
  | half | brain | single => single
  | double => double

/-- The narrowest format that holds the numbers of both. -/
def join : Precision → Precision → Precision
  | double, _ | _, double => double
  | single, _ | _, single => single
  | half, half => half
  | brain, brain => brain
  | half, brain | brain, half => single

theorem join_comm (p q : Precision) : p.join q = q.join p := by
  cases p <;> cases q <;> rfl

theorem join_self (p : Precision) : p.join p = p := by
  cases p <;> rfl

theorem join_assoc (p q r : Precision) : (p.join q).join r = p.join (q.join r) := by
  cases p <;> cases q <;> cases r <;> rfl

/-- The multiple of a power of two that stands for `m * 2 ^ q` in a format: `m` is cut to the
bits of the format, and to the place of its smallest number. -/
def fit (p : Precision) (m : Nat) (q : Int) : Nat × Int :=
  let place := max (q + (m.log2 : Int) + 1 - p.significandBits) p.minExponent
  if place ≤ q then (m, q) else (roundDiv m (Nat.pow 2 (place - q).toNat), place)

example : half.fit 2049 0 = (1024, 1) := by decide
example : half.fit 2051 0 = (1026, 1) := by decide
example : single.fit 2051 0 = (2051, 0) := by decide

/-- The nearest number with the bits of a format to `± m * 2 ^ q`. -/
def ofBinary (p : Precision) (negative : Bool) (m : Nat) (q : Int) : Float :=
  let (k, place) := p.fit m q
  let size :=
    if m = 0 then 0
    else if p.maxExponent < place + (k.log2 : Int) then Float.ofScientific 1 false 400
    else (Float.ofNat k).scaleB place
  if negative then -size else size

/-- The nearest number with the bits of a format. -/
def cut (p : Precision) (x : Float) : Float :=
  match p, Binary.ofFloat x with
  | double, _ => x
  | _, .finite negative m q => p.ofBinary negative m q
  | _, _ => x

/-- The number of a format that a number is stored as: the nearest one, except that `brain` is
reached by way of `single`. -/
def round (p : Precision) (x : Float) : Float :=
  match p with
  | brain => brain.cut (single.cut x)
  | _ => p.cut x

/-- The number of a format that a whole number becomes; the narrow ones are reached by way of
`single`. -/
def ofInt (p : Precision) (n : Int) : Float :=
  p.cut (p.arithmetic.ofBinary (n < 0) n.natAbs 0)

/-! ## Small numbers -/

/-- The least positive number whose significand has all the bits of arithmetic on a format. -/
def leastNormal (p : Precision) : Float := Float.scaleB 1 (1 - p.arithmetic.maxExponent)

/-- A number as arithmetic takes it: zero, with its sign, if its size is below that of numbers with
all their bits. -/
def flush (p : Precision) (x : Float) : Float :=
  if x.abs < p.leastNormal then x * 0 else x

/-- The result in `single` of an operation with a given exact value. It is zero if the value would be
below the numbers with all their bits even when rounded to such a significand. -/
def settleSingle (x : Float) : Float :=
  if x.abs < single.leastNormal * (1 - Float.scaleB 1 (-25)) then x * 0 else single.cut x

/-- The stored result of an operation with a given exact value. -/
def settle (p : Precision) (x : Float) : Float :=
  match p with
  | double => double.flush x
  | _ => p.cut (settleSingle x)

/-- The number of a format that stands for a stored number of another. From `double` to `single` and
back it passes through arithmetic, and `brain` is reached by way of `single`. -/
def convert (source target : Precision) (x : Float) : Float :=
  match source, target with
  | double, double => x
  | double, half => half.cut x
  | double, _ => target.cut (settleSingle x)
  | _, double => source.flush x
  | _, _ => target.cut x

/-- The tolerance of comparisons in a format. -/
def tolerance : Precision → Float
  | double => 1e-12
  | single => 1e-6
  | half | brain => 1e-3

/-- Significant digits shown in reports. -/
def reportDigits : Precision → Nat
  | double => 9
  | single => 4
  | half | brain => 2

/-- Places after the point shown in reports of numbers below one. -/
def reportPlaces : Precision → Nat
  | double => 10
  | single => 4
  | half | brain => 2

end Precision

end AngularMotion
