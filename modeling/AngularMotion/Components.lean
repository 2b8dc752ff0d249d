import AngularMotion.Coordinates
import AngularMotion.Number.Shortest
import AngularMotion.Number.Word
import AngularMotion.Row

/-!
# Coordinates as they are received

The rate and the acceleration of received coordinates are rows of any length. They can be looked at
and scaled as they are; the operations on motions are made of sums and rotations of rows, and fail
where these do. On vectors they are the operations on coordinates.

Received coordinates are written with their rotation, whose components have names in the text.
-/

namespace AngularMotion

/-! ## The texts of a quaternion -/

namespace Quaternion

/-- The four components with their names. -/
def textWith (number : Float → String) (q : Quaternion Scalar) : String :=
  let named := List.zipWith (fun name x => name ++ "=" ++ number x.value) ["w", "x", "y", "z"]
    q.toList
  "Quaternion(" ++ ", ".intercalate named ++ ")"

/-- With six places after the point. -/
def text (q : Quaternion Scalar) : String := q.textWith (Decimal.placesText 6)

/-- With as many digits as tell a component from its neighbours. -/
def shown (q : Quaternion Scalar) : String := q.textWith Shortest.text

end Quaternion

/-! ## Received coordinates -/

structure Components where
  rotation : Quaternion Scalar
  rate : List Scalar
  acceleration : List Scalar

namespace Components

/-- Received coordinates; what is not given is the identity or zero. -/
def build (s : Setup) (rotation : Option (Quaternion Scalar))
    (rate acceleration : Option (List Scalar)) : Components where
  rotation := rotation.getD (.identity s.working)
  rate := (rate.getD [0, 0, 0]).map s.working.store
  acceleration := (acceleration.getD [0, 0, 0]).map s.working.store

def ofCoordinates (c : Coordinates Scalar) : Components :=
  ⟨c.rotation, c.rate.toList, c.acceleration.toList⟩

/-- The numbers in three parts. -/
def leaves (c : Components) : List (List Scalar) := [c.rotation.toList, c.rate, c.acceleration]

def scale (k : Scalar) (c : Components) : Components :=
  ⟨k • c.rotation, Row.scale k c.rate, Row.scale k c.acceleration⟩

/-- The coordinates with both rows as vectors, read in one way. -/
def coordinates (read : List Scalar → Except ShapeFault (Vec3 Scalar)) (c : Components) :
    Except ShapeFault (Coordinates Scalar) := do
  return ⟨c.rotation, ← read c.rate, ← read c.acceleration⟩

theorem coordinates_ofCoordinates (c : Coordinates Scalar) :
    (ofCoordinates c).coordinates Row.vectorPart = .ok c := rfl

/-- The coordinates, if both rows are vectors. -/
def coordinates? (c : Components) : Option (Coordinates Scalar) :=
  (c.coordinates Row.vectorPart).toOption

/-! ## Operations -/

def revert (c : Components) : Except ShapeFault Components := do
  return ofCoordinates (← c.coordinates Row.rotatable).revert

/-- The composition with an offset that acts first. -/
def addOffset (c offset : Components) : Except ShapeFault Components := do
  let rate ← Row.add c.rate (c.rotation.apply (← Row.rotatable offset.rate)).toList
  let acceleration ←
    Row.add c.acceleration (c.rotation.apply (← Row.rotatable offset.acceleration)).toList
  return ⟨c.rotation.compose offset.rotation, rate, acceleration⟩

theorem addOffset_ofCoordinates (c offset : Coordinates Scalar) :
    (ofCoordinates c).addOffset (ofCoordinates offset) = .ok (ofCoordinates (c.addOffset offset)) :=
  rfl

def subtractOffset (c offset : Components) : Except ShapeFault Components := do
  c.addOffset (← offset.revert)

theorem subtractOffset_ofCoordinates (c offset : Coordinates Scalar) :
    (ofCoordinates c).subtractOffset (ofCoordinates offset)
      = .ok (ofCoordinates (c.subtractOffset offset)) :=
  rfl

/-- The components `dt` seconds later under a constant acceleration. -/
def shiftedBy (s : Setup) (c : Components) (dt : Scalar) : Except ShapeFault Components := do
  let dt := s.working.enter dt
  let halved := c.acceleration.map (· / 2)
  let turn ← Row.vectorPart (← Row.add (Row.scale dt c.rate) (Row.scale dt (Row.scale dt halved)))
  let rate ← Row.add c.rate (Row.scale dt c.acceleration)
  return ⟨(Quaternion.ofRotationVector s.working turn).compose c.rotation, rate, c.acceleration⟩

theorem shiftedBy_ofCoordinates (s : Setup) (c : Coordinates Scalar) (dt : Scalar) :
    (ofCoordinates c).shiftedBy s dt = .ok (ofCoordinates (c.shiftedBy s.working dt)) :=
  rfl

/-- Whether two motions agree within a tolerance. -/
def isClose (s : Setup) (a b : Components) (tolerance : Option Scalar) :
    Except ShapeFault Bool := do
  let limit := tolerance.getD s.working.tolerance
  let close (x : Scalar) : Bool := Elementary.abs x ≤ limit
  let rates ← Row.zipWith (· - ·) a.rate b.rate
  let accelerations ← Row.zipWith (· - ·) a.acceleration b.acceleration
  return decide (a.rotation.distance b.rotation ≤ limit) && rates.all close
    && accelerations.all close

/-! ## The written form -/

def listText (xs : List Scalar) : String :=
  "[" ++ ", ".intercalate (xs.map fun x => Shortest.text x.value) ++ "]"

def shown (c : Components) : String :=
  "AngularCoordinates(rotation=" ++ c.rotation.shown ++ ", rotation_rate=" ++ listText c.rate
    ++ ", rotation_acceleration=" ++ listText c.acceleration ++ ")"

end Components

end AngularMotion
