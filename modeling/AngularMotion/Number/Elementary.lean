/-!
# What the formulas ask of their numbers

The motion formulas are written over any type with field operations. Where they leave the field
they use the functions of `Elementary`; where they depend on how numbers are stored they use
`SumOfProducts` and `Storable`, whose operations are plain sums and identities for numbers without a
storage format.
-/

namespace AngularMotion

/-- The functions of analysis next to the field operations. -/
class Elementary (α : Type) where
  pi : α
  sqrt : α → α
  sin : α → α
  cos : α → α
  /-- The angle from the first axis to the point with abscissa `x` and ordinate `y`. -/
  arctan2 : (y x : α) → α
  abs : α → α
  /-- `1` or `-1`, after the sign of a number. -/
  direction : α → α

/-- Sums of products, which stored numbers round less often than each product and each sum. -/
class SumOfProducts (α : Type) where
  sumOfProducts : List (α × α) → α

/-- How numbers are kept: sums round to the format once, and a number may be moved to the format of
another or freed from its own. -/
class Storable (α : Type) extends SumOfProducts α where
  total : List α → α
  mean : List α → α
  /-- `like model x` is `x` in the format of `model`. -/
  like : (model x : α) → α
  plain : α → α

/-- The working precision: how inputs are stored, how numbers that are not stored enter the formulas,
and the tolerance of comparisons. -/
structure Working (α : Type) where
  store : α → α
  enter : α → α
  tolerance : α

namespace Working

/-- Exact numbers are stored as they are. -/
def exact {α : Type} (tolerance : α) : Working α := ⟨id, id, tolerance⟩

@[simp] theorem store_exact {α : Type} (tolerance x : α) :
    (exact tolerance).store x = x := rfl

@[simp] theorem enter_exact {α : Type} (tolerance x : α) :
    (exact tolerance).enter x = x := rfl

@[simp] theorem tolerance_exact {α : Type} (tolerance : α) :
    (exact tolerance).tolerance = tolerance := rfl

end Working

/-! ## Degrees and radians -/

section Angles

open Elementary

variable {α : Type} [Elementary α] [Mul α] [Div α] [OfNat α 180]

def radiansOfDegrees (x : α) : α := x * (pi / 180)

def degreesOfRadians (x : α) : α := x * (180 / pi)

end Angles

end AngularMotion
