import AngularMotion.Number.Shortest

/-!
# Events

What interpolation reports on the way to its result.
-/

namespace AngularMotion

inductive Event (τ α : Type) where
  /-- A residual near the singularity ends an attempt. -/
  | tooClose (time : τ) (scalarPart threshold : α)
  | restart (time : τ) (attempt limit : Nat)
  | gaveUp (size : Nat) (time : τ)
  /-- A table was built. -/
  | built (size : Nat) (first last : τ)
deriving DecidableEq

namespace Event

variable {τ α : Type}

/-- Whether an event reports a failure. -/
def isFailure : Event τ α → Bool
  | gaveUp .. => true
  | _ => false

def message (text : τ → String) (number : α → Float) : Event τ α → String
  | tooClose time scalarPart threshold =>
    "Residual at " ++ text time ++ " has signed scalar part "
      ++ Decimal.placesText 6 (number scalarPart) ++ " below "
      ++ Decimal.placesText 6 (number threshold)
  | restart time attempt limit =>
    "Restarting interpolation at " ++ text time ++ s!", attempt {attempt} of {limit}"
  | gaveUp size time => s!"No safe offset model found for {size} sample points at " ++ text time
  | built size first last =>
    s!"Built angular ephemeris with {size} entries from " ++ text first ++ " to " ++ text last

/-- The level and the message. -/
def line (text : τ → String) (number : α → Float) (e : Event τ α) : String :=
  (if e.isFailure then "ERROR " else "DEBUG ") ++ e.message text number

end Event

end AngularMotion
