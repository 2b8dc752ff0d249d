import AngularMotion.Number.Quantity
import AngularMotion.Trust

/-!
# Faults of interpolation

Why a sample or a table gives no motion at an instant.
-/

namespace AngularMotion

inductive Fault (τ : Type) where
  /-- Instants could not be compared, subtracted or shifted. -/
  | clock (fault : ClockFault)
  /-- A motion has rows of numbers that do not fit a rotation. -/
  | shape (fault : ShapeFault)
  /-- A motion is not given at an instant. -/
  | noInstant
  | emptySample
  /-- Rates cannot be estimated from fewer than two rotations. -/
  | tooFewForRates (size : Nat)
  /-- No attempt kept clear of the singularity. -/
  | noSafeOffset (attempts : Nat)
  | windowTooSmall (trust : Trust) (points : Count)
  | tableTooSmall (size : Nat) (points : Count)
  | outsideRange (time first last : τ)
deriving DecidableEq

namespace Trust

/-- The least count of points from which a motion can be rebuilt: rates need two rotations. -/
def minimumPoints : Trust → Nat
  | rotation => 2
  | rate | acceleration => 1

theorem minimumPoints_pos (t : Trust) : 0 < t.minimumPoints := by
  cases t <;> decide

end Trust

variable {τ : Type}

/-- The text of a fault, given that of instants. -/
def Fault.message? (text : τ → String) : Fault τ → Option String
  | clock fault => fault.message?
  | shape fault => (Refusal.shape fault).message?
  | noInstant => Refusal.noInstant.message?
  | emptySample => "Cannot interpolate an empty sample"
  | tooFewForRates size => s!"Rate estimation needs at least 2 sample points, got {size}"
  | noSafeOffset attempts => s!"Singularity avoidance did not converge after {attempts} attempts"
  | windowTooSmall trust points =>
    trust.name ++ s!" needs at least {trust.minimumPoints} interpolation points, got " ++ points.text
  | tableTooSmall size points =>
    s!"Table holds {size} entries, fewer than the " ++ points.text
      ++ " interpolation points requested"
  | outsideRange time first last =>
    "Time " ++ text time ++ " is outside the ephemeris range [" ++ text first ++ ", "
      ++ text last ++ "]"

end AngularMotion
