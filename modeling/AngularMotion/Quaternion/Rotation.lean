import AngularMotion.Quaternion.Basic

/-!
# Rotations

Rotations are kept as quaternions of norm one. They are built from components, from an axis and
an angle, or from a rotation vector (the angle times the unit axis), and read back the same ways.
Composition renormalizes, so that rounding errors do not build up.
-/

namespace AngularMotion

namespace Quaternion

open Elementary Storable

variable {α : Type} [Elementary α] [Storable α]

/-! ## Norms -/

def norm [Mul α] (q : Quaternion α) : α :=
  sqrt (total [q.w * q.w, q.v.x * q.v.x, q.v.y * q.v.y, q.v.z * q.v.z])

def normalize [Mul α] [Div α] (q : Quaternion α) : Quaternion α := q / q.norm

/-! ## Construction -/

def identity [Zero α] [One α] (p : Working α) : Quaternion α :=
  map p.store ⟨1, 0⟩

/-- The rotation along the given components. -/
def ofComponents [Mul α] [Div α] (p : Working α) (q : Quaternion α) : Quaternion α :=
  (q.map p.store).normalize

/-- The rotation by an angle about an axis of any length. -/
def turn [Mul α] [Div α] [OfNat α 2] (axis : Vec3 α) (angle : α) : Quaternion α :=
  ⟨cos (angle / 2), sin (angle / 2) • (axis / axis.norm)⟩

/-- The exponential: the rotation by the length of a vector about its direction. The ratio
`sin (θ / 2) / θ` tends to one half. -/
def exp [Zero α] [One α] [Mul α] [Div α] [OfNat α 2] [LT α] [DecidableLT α] (u : Vec3 α) :
    Quaternion α :=
  let angle := u.norm
  let ratio := if 0 < angle then sin (angle / 2) / angle else 1 / 2
  normalize ⟨cos (angle / 2), ratio • u⟩

def ofAxisAngle [Mul α] [Div α] [OfNat α 2] (p : Working α) (axis : Vec3 α) (angle : α) :
    Quaternion α :=
  turn (axis.map p.store) (p.store angle)

def ofRotationVector [Zero α] [One α] [Mul α] [Div α] [OfNat α 2] [LT α] [DecidableLT α]
    (p : Working α) (u : Vec3 α) : Quaternion α :=
  exp (u.map p.store)

/-! ## Reading -/

/-- The angle of this representative, between zero and a full turn. -/
def angle [Mul α] [OfNat α 2] (q : Quaternion α) : α := 2 * arctan2 q.v.norm q.w

/-- The unit axis that goes with `angle`; the first axis when there is no rotation. -/
def axis [Zero α] [One α] [Mul α] [Div α] [OfScientific α] [LE α] [DecidableLE α]
    (q : Quaternion α) : Vec3 α :=
  if q.v.norm ≤ 1e-15 then ⟨1, 0, 0⟩ else q.v / q.v.norm

/-- The logarithm: the shortest rotation vector, read from the representative whose scalar part
is not negative. -/
def log [Zero α] [Mul α] [Neg α] [Div α] [OfNat α 2] [OfScientific α] [LT α]
    [DecidableLT α] (q : Quaternion α) : Vec3 α :=
  let q := if q.w < 0 then -q else q
  let size := q.v.norm
  let ratio := if 1e-15 < size then q.angle / size else 2 / q.w
  ratio • q.v

/-! ## Algebra -/

/-- The rotation by `b` and then by `a`. -/
def compose [Add α] [Sub α] [Mul α] [Div α] (a b : Quaternion α) : Quaternion α :=
  (a.product b).normalize

def inverse [One α] [Mul α] [Neg α] [Div α] (q : Quaternion α) : Quaternion α :=
  q.conjugate / q.norm

/-- The angle of the rotation that leads from one rotation to another, at most half a turn. -/
def distance [One α] [Add α] [Sub α] [Mul α] [Neg α] [OfNat α 2] (a b : Quaternion α) : α :=
  let p := a.product b.conjugate
  2 * arctan2 p.v.norm (abs p.w)

/-- A vector, stored as the rotation is, rotated. -/
def apply [Add α] [Sub α] [Mul α] [OfNat α 2] (q : Quaternion α) (u : Vec3 α) : Vec3 α :=
  q.rotate (u.map (like q.w))

def applyInverse [One α] [Add α] [Sub α] [Mul α] [Neg α] [OfNat α 2] (q : Quaternion α)
    (u : Vec3 α) : Vec3 α :=
  q.conjugate.apply u

/-- Whether all components agree within the tolerance. -/
def near [Sub α] [LT α] [DecidableLT α] (p : Working α) (a b : Quaternion α) : Bool :=
  let d := a - b
  let small (x : α) : Bool := abs x < p.tolerance
  small d.w && d.v.all small

end Quaternion

end AngularMotion
