import AngularMotion.Quaternion.Rotation

/-!
# Angular coordinates

The rotation of a body at one instant, its rate and its acceleration. The rate `Ω` satisfies
`dR/dt = ½ (0, Ω) R`: it is expressed on the image side of the rotation, so that composing two
motions carries the inner rate through the outer rotation.
-/

namespace AngularMotion

@[ext] structure Coordinates (α : Type) where
  rotation : Quaternion α
  rate : Vec3 α
  acceleration : Vec3 α
deriving DecidableEq

namespace Coordinates

open Storable

variable {α : Type} [Elementary α] [Storable α]

/-- Coordinates at the working precision; what is not given is the identity or zero. A given
rotation keeps the format it has. -/
def build [Zero α] [One α] (p : Working α) (rotation : Option (Quaternion α))
    (rate acceleration : Option (Vec3 α)) : Coordinates α where
  rotation := rotation.getD (.identity p)
  rate := (rate.getD 0).map p.store
  acceleration := (acceleration.getD 0).map p.store

def identity [Zero α] [One α] (p : Working α) : Coordinates α := build p none none none

/-- All numbers multiplied by one factor; nothing is normalized. -/
def scale [Mul α] (k : α) (c : Coordinates α) : Coordinates α :=
  ⟨k • c.rotation, k • c.rate, k • c.acceleration⟩

/-! ## Offsets -/

section Offsets

variable [One α] [Add α] [Sub α] [Mul α] [Neg α] [Div α] [OfNat α 2]

/-- The coordinates that undo these. -/
def revert (c : Coordinates α) : Coordinates α where
  rotation := c.rotation.inverse
  rate := c.rotation.applyInverse (-c.rate)
  acceleration := c.rotation.applyInverse (-c.acceleration)

/-- The composition with an offset that acts first. Its rate and acceleration are carried
through the rotation of these coordinates and added to theirs. -/
def addOffset (c offset : Coordinates α) : Coordinates α where
  rotation := c.rotation.compose offset.rotation
  rate := c.rate + c.rotation.apply offset.rate
  acceleration := c.acceleration + c.rotation.apply offset.acceleration

/-- The composition with the reverse of an offset. -/
def subtractOffset (c offset : Coordinates α) : Coordinates α :=
  c.addOffset offset.revert

end Offsets

/-! ## Motion -/

section Motion

variable [Zero α] [One α] [Add α] [Sub α] [Mul α] [Neg α] [Div α] [OfNat α 2] [LT α]
  [DecidableLT α]

/-- The coordinates `dt` seconds later under a constant acceleration: the rotation is followed by
the one along `Ω dt + ½ Ω' dt²`. -/
def shiftedBy (p : Working α) (c : Coordinates α) (dt : α) : Coordinates α :=
  let dt := p.enter dt
  let turn := dt • c.rate + dt • (dt • (c.acceleration / (2 : α)))
  { rotation := (Quaternion.ofRotationVector p turn).compose c.rotation
    rate := c.rate + dt • c.acceleration
    acceleration := c.acceleration }

/-- The constant rate that leads from one rotation to another in `dt` seconds along the shortest
way. -/
def estimateRate [OfScientific α] (p : Working α) (start finish : Quaternion α) (dt : α) : Vec3 α :=
  (finish.compose start.inverse).log / p.enter dt

end Motion

/-- Whether two motions agree within a tolerance, rotations by their distance. Without one the
tolerance of the working precision applies. -/
def isClose [One α] [Add α] [Sub α] [Mul α] [Neg α] [OfNat α 2] [LE α] [DecidableLE α]
    (p : Working α) (a b : Coordinates α) (tolerance : Option α) : Bool :=
  let limit := tolerance.getD p.tolerance
  let close (x : α) : Bool := Elementary.abs x ≤ limit
  decide (a.rotation.distance b.rotation ≤ limit) && (a.rate - b.rate).all close
    && (a.acceleration - b.acceleration).all close

end Coordinates

end AngularMotion
