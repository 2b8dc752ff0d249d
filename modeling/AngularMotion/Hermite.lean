import AngularMotion.Vec3

/-!
# Hermite interpolation

At each abscissa the value of a function and its leading derivatives are known. The interpolating
polynomial is kept in Newton form: every abscissa is repeated once per known order, and divided
differences over a run of equal nodes are replaced by `f⁽ʲ⁾ / j!`. Evaluation is Horner's scheme
carried through the derivatives. The components of a vector are interpolated each on its own.
-/

namespace AngularMotion.Hermite

/-- A node of the Newton form: the point it repeats, with its abscissa and the known orders. -/
structure Node (α : Type) where
  point : Nat
  abscissa : α
  orders : List α

def factorial : Nat → Nat
  | 0 => 1
  | n + 1 => (n + 1) * factorial n

variable {α : Type}

/-- Each point once per known order. Abscissae beyond the points are not used, and points beyond
the abscissae share the last one. -/
def nodes [Zero α] (abscissae : List α) (samples : List (List α)) : List (Node α) :=
  samples.zipIdx.flatMap fun (orders, i) =>
    .replicate orders.length ⟨i, abscissae.getD (min i (abscissae.length - 1)) 0, orders⟩

section Formulas

variable [Zero α] [Add α] [Sub α] [Mul α] [Div α] [NatCast α]

/-- The divided differences of one level from those of the level below. -/
def nextLevel (level : Nat) (nodes : List (Node α)) (column : List α) : List α :=
  List.zipWith
    (fun (low, high) (first, last) =>
      if first.point = last.point then first.orders.getD level 0 / (factorial level : Nat)
      else (high - low) / (last.abscissa - first.abscissa))
    (column.zip column.tail) (nodes.zip (nodes.drop level))

/-- The leading divided difference of each level, from a level on. -/
def coefficientsFrom (nodes : List (Node α)) : (count level : Nat) → List α → List α
  | 0, _, _ => []
  | count + 1, level, column =>
    column.headD 0 :: coefficientsFrom nodes count (level + 1) (nextLevel (level + 1) nodes column)

/-- The coefficients of the Newton form. -/
def coefficients (nodes : List (Node α)) : List α :=
  coefficientsFrom nodes nodes.length 0 (nodes.map fun z => z.orders.headD 0)

/-- One step of Horner's scheme on a polynomial and its derivatives: `P ↦ c + h P`, where `h` is the
distance to the node. -/
def hornerStep (h c : α) (values : List α) : List α :=
  values.zipIdx.map fun (value, p) =>
    if p = 0 then value * h + c else value * h + (p : Nat) * values.getD (p - 1) 0

/-- The interpolating polynomial and its derivatives up to an order. -/
def evaluate (abscissae : List α) (samples : List (List α)) (x : α) (order : Nat) : List α :=
  let nodes := nodes abscissae samples
  (nodes.zip (coefficients nodes)).foldr (fun (z, c) values => hornerStep (x - z.abscissa) c values)
    (.replicate (order + 1) 0)

/-- Interpolation of vectors of three components. -/
def evaluateVec3 (abscissae : List α) (samples : List (List (Vec3 α))) (x : α) (order : Nat) :
    List (Vec3 α) :=
  let along (component : Vec3 α → α) := evaluate abscissae (samples.map (·.map component)) x order
  List.zipWith (fun (x, y) z => ⟨x, y, z⟩) ((along Vec3.x).zip (along Vec3.y)) (along Vec3.z)

/-- Interpolation of vectors of `width` components, as rows of numbers. -/
def evaluateRows (width : Nat) (abscissae : List α) (samples : List (List (List α))) (x : α)
    (order : Nat) : List (List α) :=
  let columns := (List.range width).map fun i =>
    evaluate abscissae (samples.map (·.map (·.getD i 0))) x order
  (List.range (order + 1)).map fun p => columns.map (·.getD p 0)

end Formulas

end AngularMotion.Hermite
