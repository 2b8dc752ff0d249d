import AngularMotion.Number.Elementary
import AngularMotion.Number.Precision

/-!
# Stored numbers

A `Scalar` is a machine number with the format it is stored in. A constant has no format of its
own: it takes that of the number it meets. An operation on two formats works in their join, takes
numbers that are too small for arithmetic for zero, and rounds its result to the join. Operations on
constants alone are those of machine numbers, and a change of sign leaves all other bits as they are.
-/

namespace AngularMotion

structure Scalar where
  value : Float
  /-- `none` for a constant. -/
  precision : Option Precision
  /-- The sign bit of a value that is not a number. Operations that have no result set it, and hand
  on that of an operand. -/
  signed : Bool
  /-- The whole number that a constant was given as. A machine number need not be all of it. -/
  whole : Option Int := none

namespace Scalar

/-- A number without a format. -/
def constant (x : Float) : Scalar := { value := x, precision := none, signed := false }

/-- The number of a format that stands for a given one. A whole number is cut to `brain` as it was
given, and to the other formats as a machine number. -/
def store (p : Precision) (x : Scalar) : Scalar where
  value :=
    match x.precision, x.whole with
    | some q, _ => q.convert p x.value
    | none, some n => if p = .brain then p.ofInt n else p.round x.value
    | none, none => p.round x.value
  precision := some p
  signed := x.signed

/-- A constant cut to the format of numbers that have been given none. -/
def enter (p : Precision) (x : Scalar) : Scalar :=
  match x.precision with
  | none => { x with value := p.round x.value }
  | some _ => x

/-- The format in which two numbers meet. -/
def common : Option Precision → Option Precision → Option Precision
  | none, p => p
  | p, none => p
  | some p, some q => some (p.join q)

/-- A number in the format that it meets others in. -/
def converted (p : Precision) (a : Scalar) : Float :=
  match a.precision, a.whole with
  | some q, _ => q.convert p a.value
  | none, some n => p.ofInt n
  | none, none => Precision.double.convert p a.value

/-- A number as it takes part in an operation in a format. -/
def operand (p : Option Precision) (a : Scalar) : Float :=
  match p with
  | none => a.value
  | some p => p.flush (converted p a)

/-- The result of an operation in a format. -/
def settle : Option Precision → Float → Float
  | none, x => x
  | some p, x => p.settle x

/-- The sign bit that operands give to a result that is not a number: that of the first of them
which is none, and a set one if an operation on numbers failed. -/
def mark : List Scalar → Bool
  | [] => true
  | a :: rest => if a.value.isNaN then a.signed else mark rest

/-- Applies a machine operation in the join of two formats. -/
def lift₂ (op : Option Precision → Float → Float → Float) (a b : Scalar) : Scalar :=
  let p := common a.precision b.precision
  { value := settle p (op p (operand p a) (operand p b)), precision := p, signed := mark [a, b] }

/-- Applies a machine operation in the format of a number. -/
def lift (op : Float → Float) (a : Scalar) : Scalar where
  value := settle a.precision (op (operand a.precision a))
  precision := a.precision
  signed := mark [a]

/-- Compares two numbers in the join of their formats. -/
def meet (test : Float → Float → Bool) (a b : Scalar) : Bool :=
  let p := common a.precision b.precision
  test (operand p a) (operand p b)

/-- A multiplicative operation on stored numbers. The least normal number is a result only if it is
one before rounding to the place of smaller numbers, which shows where the operands are larger. -/
def multiplicative (op : Float → Float → Float) (p : Option Precision) (x y : Float) : Float :=
  let z := op x y
  let least := Precision.double.leastNormal
  let scale := Float.scaleB 1 54
  if p = some .double ∧ z.abs == least ∧ (op (x * scale) y).abs < least * scale then z * 0 else z

instance : Add Scalar := ⟨lift₂ fun _ x y => x + y⟩
instance : Sub Scalar := ⟨lift₂ fun _ x y => x - y⟩
instance : Mul Scalar := ⟨lift₂ (multiplicative (· * ·))⟩
instance : Div Scalar := ⟨lift₂ (multiplicative (· / ·))⟩
instance : Neg Scalar := ⟨fun a =>
  { a with value := -a.value, signed := !a.signed, whole := a.whole.map (- ·) }⟩
instance : NatCast Scalar := ⟨fun n => constant (Float.ofNat n)⟩
instance (n : Nat) : OfNat Scalar n := ⟨constant (Float.ofNat n)⟩
instance : Zero Scalar := ⟨constant 0⟩
instance : One Scalar := ⟨constant 1⟩
instance : OfScientific Scalar := ⟨fun m s e => constant (Float.ofScientific m s e)⟩

instance : LT Scalar := ⟨fun a b => meet (· < ·) a b = true⟩
instance : LE Scalar := ⟨fun a b => meet (· ≤ ·) a b = true⟩
instance : DecidableLT Scalar := fun a b => inferInstanceAs (Decidable (meet _ a b = true))
instance : DecidableLE Scalar := fun a b => inferInstanceAs (Decidable (meet _ a b = true))

/-- The sign bit decides: a negative zero points down. -/
def direction (x : Scalar) : Float :=
  match Binary.ofFloat x.value with
  | .infinite negative | .finite negative _ _ => if negative then -1 else 1
  | .notANumber => if x.signed then -1 else 1

instance : Elementary Scalar where
  pi := constant 3.141592653589793
  sqrt := lift Float.sqrt
  sin := lift Float.sin
  cos := lift Float.cos
  arctan2 := lift₂ fun _ => Float.atan2
  abs x := { x with value := x.value.abs, signed := false, whole := none }
  direction x := constant (direction x)

/-- The join of the formats of a list. -/
def commonOf (xs : List Scalar) : Option Precision :=
  xs.foldl (fun p x => common p x.precision) none

/-- The format in which sums over a format are formed. -/
def wide (p : Option Precision) : Option Precision := p.map Precision.arithmetic

/-- A sum that is formed term by term. -/
def accumulate (p : Option Precision) (terms : List Float) : Float :=
  terms.foldl (fun s x => settle p (s + x)) 0

/-- A sum that has been formed in the wider format, in the format itself. -/
def narrow : Option Precision → Float → Float
  | none, x => x
  | some p, x => p.round x

/-- Computes with the terms in the wider format of their join. -/
def gather (xs : List Scalar) (compute : Option Precision → Float) : Scalar :=
  let p := commonOf xs
  { value := narrow p (compute (wide p)), precision := p, signed := mark xs }

/-- The mean of one number is that number, without any operation. -/
def mean : List Scalar → Scalar
  | [x] => x
  | xs => gather xs fun p => settle p (accumulate p (xs.map (operand p)) / Float.ofNat xs.length)

instance : Storable Scalar where
  sumOfProducts pairs :=
    gather (pairs.flatMap fun (a, b) => [a, b]) fun p =>
      accumulate p (pairs.map fun (a, b) => settle p (operand p a * operand p b))
  total xs := gather xs fun p => accumulate p (xs.map (operand p))
  mean := mean
  like model x :=
    match model.precision with
    | none => x
    | some p => store p x
  plain x := { x with precision := none, whole := none }

end Scalar

end AngularMotion
