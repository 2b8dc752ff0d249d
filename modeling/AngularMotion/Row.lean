import AngularMotion.Vec3

/-!
# Rows of numbers

Vectors may be received with any number of components. Rows of the same length are added component by
component, and a single number is added to every component of a row. Only rows of three components
can be rotated.
-/

namespace AngularMotion

/-- Why rows do not go together, or with a rotation. -/
inductive ShapeFault where
  /-- Lengths that do not fit together. -/
  | mismatch
  /-- A length that no use allows. -/
  | misshapen
deriving DecidableEq

namespace Row

variable {α : Type}

/-- Combines rows component by component; a single number stands for as many equal ones as the
other row has components. -/
def zipWith (op : α → α → α) : List α → List α → Except ShapeFault (List α)
  | [x], ys => .ok (ys.map (op x))
  | xs, [y] => .ok (xs.map (op · y))
  | xs, ys =>
    if xs.length = ys.length then .ok (List.zipWith op xs ys) else .error .mismatch

def add [Add α] : List α → List α → Except ShapeFault (List α) := zipWith (· + ·)

theorem add_toList [Add α] (u v : Vec3 α) : add u.toList v.toList = .ok (u + v).toList := rfl

def scale [Mul α] (k : α) (xs : List α) : List α := xs.map (k * ·)

theorem scale_toList [Mul α] (k : α) (u : Vec3 α) : scale k u.toList = (k • u).toList := rfl

/-- The vector part of a quaternion. -/
def vectorPart : List α → Except ShapeFault (Vec3 α)
  | [x, y, z] => .ok ⟨x, y, z⟩
  | _ => .error .mismatch

/-- A vector to be rotated. Two components would make a plane vector, which does not fit a spatial
rotation. -/
def rotatable : List α → Except ShapeFault (Vec3 α)
  | [x, y, z] => .ok ⟨x, y, z⟩
  | [_, _] => .error .mismatch
  | _ => .error .misshapen

/-- The mean of rows of one length. -/
def mean [Storable α] [Zero α] (rows : List (List α)) : Except ShapeFault (List α) :=
  let width := (rows.headD []).length
  if rows.all (·.length = width) then
    .ok ((List.range width).map fun i => Storable.mean (rows.map (·.getD i 0)))
  else .error .misshapen

end Row

end AngularMotion
