import AngularMotion.Coordinates
import AngularMotion.Time.Timeline

/-!
# Motion at an instant

A motion with the instant it belongs to. Offsets leave the instant as it is, and the instant of an
offset plays no part.
-/

namespace AngularMotion

@[ext] structure Stamped (τ μ : Type) where
  time : τ
  motion : μ
deriving DecidableEq

namespace Stamped

variable {τ α : Type} [Elementary α] [Storable α] [One α] [Add α] [Sub α] [Mul α] [Neg α] [Div α]
  [OfNat α 2]

def revert (c : Stamped τ (Coordinates α)) : Stamped τ (Coordinates α) :=
  ⟨c.time, c.motion.revert⟩

def addOffset (c : Stamped τ (Coordinates α)) (offset : Coordinates α) :
    Stamped τ (Coordinates α) :=
  ⟨c.time, c.motion.addOffset offset⟩

def subtractOffset (c : Stamped τ (Coordinates α)) (offset : Coordinates α) :
    Stamped τ (Coordinates α) :=
  ⟨c.time, c.motion.subtractOffset offset⟩

/-- The motion `dt` seconds later, with the instant moved on as well. -/
def shiftedBy [Timeline τ α] [Zero α] [LT α] [DecidableLT α] (p : Working α)
    (c : Stamped τ (Coordinates α)) (dt : α) : Except ClockFault (Stamped τ (Coordinates α)) := do
  let time ← Timeline.shift c.time dt
  return ⟨time, c.motion.shiftedBy p dt⟩

end Stamped

end AngularMotion
