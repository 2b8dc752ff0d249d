import AngularMotion.Number.Quantity
import AngularMotion.Number.Scalar

/-!
# Words

Whole numbers enter arithmetic on stored numbers in words of thirty-two bits, or of sixty-four bits
once double precision has been selected. The width of the words is also that of numbers which are
computed with before they have been given a format.
-/

namespace AngularMotion

inductive Word where
  | short
  | long
deriving DecidableEq

namespace Word

def bits : Word → Nat
  | short => 32
  | long => 64

/-- Whether a whole number has a place in a word. -/
def holds (w : Word) (n : Int) : Bool :=
  -Int.pow 2 (w.bits - 1) ≤ n && n < Int.pow 2 (w.bits - 1)

/-- The format of numbers that have been given none. -/
def precision : Word → Precision
  | short => .single
  | long => .double

/-- A whole number as a constant, with the machine number nearest to it. -/
def wholeConstant (n : Int) : Except ArithmeticFault Scalar :=
  (fun x => { Scalar.constant x with whole := some n }) <$> Quantity.floatOfInt n

/-- A quantity as a constant in the formulas. -/
def constant (w : Word) (q : Quantity) : Except ArithmeticFault Scalar :=
  match q with
  | .whole n => if w.holds n then wholeConstant n else .error .outsideWord
  | _ => (fun x => (Scalar.constant x).enter w.precision) <$> q.toFloat

/-- A quantity that is to be stored in a format. `brain` takes whole numbers from long words, the
other formats those which have a machine number near them. -/
def storable (p : Precision) (q : Quantity) : Except ArithmeticFault Scalar :=
  match p, q with
  | .brain, .whole n => if long.holds n then wholeConstant n else .error .unstorable
  | _, .whole n => (wholeConstant n).mapError fun _ => .outsideWord
  | _, _ => Scalar.constant <$> q.toFloat

/-- A quantity to be computed with before it is given a format. -/
def unstored (w : Word) (q : Quantity) : Except ArithmeticFault Scalar :=
  (Scalar.store w.precision) <$> w.constant q

example : short.holds 2147483647 = true := by decide
example : short.holds 2147483648 = false := by decide
example : long.holds (-9223372036854775808) = true := by decide

end Word

/-- What is in force when numbers are stored: the precision that was selected last, and the words,
which stay long once double precision has been selected. -/
structure Setup where
  precision : Precision
  word : Word
deriving DecidableEq

namespace Setup

def select (s : Setup) (p : Precision) : Setup where
  precision := p
  word := if p = .double then .long else s.word

/-- Before any selection numbers are stored in `single`. -/
def initial : Setup := ⟨.single, .short⟩

/-- Double precision from the beginning. -/
def double : Setup := initial.select .double

def working (s : Setup) : Working Scalar where
  store := Scalar.store s.precision
  enter := Scalar.enter s.word.precision
  tolerance := .constant s.precision.tolerance

end Setup

end AngularMotion
