import AngularMotion.Ephemeris.Runs
import AngularMotion.Interpolation

/-!
# Ephemerides

An ephemeris is a table of motions in the order of their instants. A motion between the entries is
interpolated from a window of neighbours, which is centred on the query as far as the ends of the
table allow.
-/

namespace AngularMotion

variable {τ μ α : Type}

/-- Motions are ordered by their instants. -/
instance [Chronology τ] : Chronology (Stamped τ μ) where
  before a b := Chronology.before a.time b.time
  after a b := Chronology.after a.time b.time
  aligned motions := Chronology.aligned (motions.map (·.time))

structure Ephemeris (τ μ : Type) where
  trust : Trust
  entries : List (Stamped τ μ)
  /-- The size of a window. -/
  points : Nat
  points_pos : 0 < points
  points_le : points ≤ entries.length

namespace Ephemeris

theorem entries_ne_nil (e : Ephemeris τ μ) : e.entries ≠ [] := by
  intro h
  have := e.points_pos
  have := e.points_le
  simp [h] at this
  omega

/-- The first instant of the table. -/
def first (e : Ephemeris τ μ) : τ := (e.entries.head e.entries_ne_nil).time

/-- The last instant of the table. -/
def last (e : Ephemeris τ μ) : τ := (e.entries.getLast e.entries_ne_nil).time

/-- The table of a sample in any order, for windows of a number of points. -/
def build [Chronology τ] (trust : Trust) (points : Count) (sample : List (Stamped τ μ)) :
    Except (Fault τ) (Ephemeris τ μ) := do
  let entries ← (Chronology.sort sample).mapError .clock
  if small : points.value < trust.minimumPoints then throw (.windowTooSmall trust points)
  else if short : entries.length < points.value then throw (.tableTooSmall entries.length points)
  else
    have := trust.minimumPoints_pos
    return {
      trust, entries, points := points.value.toNat
      points_pos := by omega
      points_le := by omega }

/-- The event of having built a table. -/
def built (e : Ephemeris τ μ) : Event τ α := .built e.entries.length e.first e.last

/-- Where the window of a query starts, if `passed` entries are not after it: so that half of the
other points lie before the last of these, moved inwards at the ends of the table. -/
def windowStart (e : Ephemeris τ μ) (passed : Nat) : Nat :=
  min (passed - 1 - (e.points - 1) / 2) (e.entries.length - e.points)

/-- The window of entries around an instant inside the table. -/
def neighbors [Chronology τ] (e : Ephemeris τ μ) (time : τ) :
    Except (Fault τ) (List (Stamped τ μ)) := do
  let outside : Fault τ := .outsideRange time e.first e.last
  if ← (Chronology.before time e.first).mapError .clock then throw outside
  if ← (Chronology.after time e.last).mapError .clock then throw outside
  let passed ← (Chronology.upperBound time (e.entries.map (·.time))).mapError .clock
  return (e.entries.drop (e.windowStart passed)).take e.points

/-- The motion at an instant inside the table. -/
def interpolate [Timeline τ α] [Elementary α] [Storable α] [Zero α] [One α] [Add α] [Sub α]
    [Mul α] [Neg α] [Div α] [NatCast α] [OfNat α 2] [OfNat α 4] [OfScientific α] [LT α]
    [DecidableLT α] (p : Working α) (e : Ephemeris τ (Coordinates α)) (time : τ) :
    Outcome τ α (Stamped τ (Coordinates α)) :=
  match e.neighbors time with
  | .error fault => ⟨[], .error fault⟩
  | .ok window => Interpolation.interpolate p e.trust time window

end Ephemeris

end AngularMotion
