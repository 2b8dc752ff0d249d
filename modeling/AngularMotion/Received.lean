import AngularMotion.Components
import AngularMotion.Refusal
import AngularMotion.Stamped
import AngularMotion.Time.Instant

/-!
# Received motions

A motion as it is received: components, with or without an instant. A motion at an instant may itself
be given at another one; the outermost instant is that of the motion. Operations keep the instants;
those of an offset play no part.
-/

namespace AngularMotion

structure Received where
  /-- The instants at which the motion is given, outermost first. -/
  times : List Instant
  components : Components

namespace Received

def ofComponents (c : Components) : Received := ⟨[], c⟩

/-- A motion given at an instant. -/
def ofStamped (c : Stamped Instant Received) : Received :=
  ⟨c.time :: c.motion.times, c.motion.components⟩

/-- The motion with its instant, if it has one. -/
def stamped? (c : Received) : Option (Stamped Instant Received) :=
  match c.times with
  | [] => none
  | time :: inner => some ⟨time, ⟨inner, c.components⟩⟩

theorem stamped?_ofStamped (c : Stamped Instant Received) : (ofStamped c).stamped? = some c := rfl

/-- The motion with its instant and with vectors as components, if it has these. -/
def regular? (c : Received) : Option (Stamped Instant (Coordinates Scalar)) := do
  return ⟨← c.times.head?, ← c.components.coordinates?⟩

def ofRegular (c : Stamped Instant (Coordinates Scalar)) : Received :=
  ⟨[c.time], .ofCoordinates c.motion⟩

theorem regular?_ofRegular (c : Stamped Instant (Coordinates Scalar)) :
    (ofRegular c).regular? = some c := rfl

def scale (k : Scalar) (c : Received) : Received := { c with components := c.components.scale k }

/-- The same instants with other components. -/
def withComponents (c : Received) (done : Except ShapeFault Components) :
    Except Refusal Received := do
  return { c with components := ← done.mapError .shape }

def revert (c : Received) : Except Refusal Received := c.withComponents c.components.revert

def addOffset (c offset : Received) : Except Refusal Received :=
  c.withComponents (c.components.addOffset offset.components)

def subtractOffset (c offset : Received) : Except Refusal Received :=
  c.withComponents (c.components.subtractOffset offset.components)

/-- The motion a number of seconds later, with all its instants moved on. -/
def shiftedBy (s : Setup) (c : Received) (dt : Quantity) : Except Refusal Received := do
  let times ← (c.times.mapM (Instant.shift · dt)).mapError .clock
  let seconds ← (s.word.constant dt).mapError .arithmetic
  return ⟨times, ← (c.components.shiftedBy s seconds).mapError .shape⟩

/-- Whether instants are the same, from the outermost on. The second motion must be given at an
instant wherever the first one is. -/
def sameTimes : List Instant → List Instant → Except Refusal Bool
  | [], _ => .ok true
  | _ :: _, [] => .error .noInstant
  | t :: ts, u :: us => if t.same u then sameTimes ts us else .ok false

/-- Whether motions agree within a tolerance, at the same instants. -/
def isClose (s : Setup) (a b : Received) (tolerance : Option Quantity) : Except Refusal Bool := do
  if ← sameTimes a.times b.times then
    let limit ← (tolerance.mapM s.word.constant).mapError .arithmetic
    (a.components.isClose s b.components limit).mapError .shape
  else return false

/-- The word for the kind of a motion in messages. -/
def kindName (c : Received) : String :=
  if c.times.isEmpty then "AngularCoordinates" else "TimeStampedAngularCoordinates"

/-- The written form, with the instants around it. -/
def shown (c : Received) : String :=
  c.times.foldr (fun time inner =>
    "TimeStampedAngularCoordinates(time=" ++ time.shown ++ ", coordinates=" ++ inner ++ ")")
    c.components.shown

end Received

end AngularMotion
