import Mathlib.Analysis.SpecialFunctions.Complex.Arg
import AngularMotion.Number.Elementary
import AngularMotion.Playback

/-!
# Exact numbers

The real numbers have no storage format: they are stored as they are, sums of them are sums, and
instants given by them have exact differences. Over them the formulas mean what they say.
-/

namespace AngularMotion

noncomputable section

instance : Elementary ℝ where
  pi := Real.pi
  sqrt := Real.sqrt
  sin := Real.sin
  cos := Real.cos
  arctan2 y x := Complex.arg ⟨x, y⟩
  abs x := |x|
  direction x := if x < 0 then -1 else 1

/-- Sums of products are what they are called. -/
instance {α : Type} [Semiring α] : SumOfProducts α where
  sumOfProducts pairs := (pairs.map fun (a, b) => a * b).sum

instance : Storable ℝ where
  total := List.sum
  mean xs := xs.sum / xs.length
  like _ x := x
  plain x := x

/-- Instants are numbers of seconds. A step of zero and a grid of one point are the only faults. -/
instance : Schedule ℝ ℝ where
  before a b := .ok (decide (a < b))
  after a b := .ok (decide (b < a))
  aligned _ := true
  since a b := .ok (a - b)
  shift a dt := .ok (a + dt)
  factor a := .ok a
  steps duration step :=
    if step = 0 then .error (.floorDivisionByZero false) else .ok ⌊duration / step⌋
  multiple i step := .ok (i * step)
  portion t i n := if n = 0 then .error (.divisionByZero false) else .ok (t * i / n)

end

end AngularMotion
