import AngularMotion.Number.Quantity
import AngularMotion.Time.Calendar

/-!
# Moments

A moment is a day of the calendar and a time of the day, down to the microsecond. With an offset
from universal time it is a point on the universal time line; without one it is a reading of some
local clock.
-/

namespace AngularMotion

/-- Microseconds from the beginning of the calendar on the local clock, and the offset of that
clock from universal time, in microseconds too. -/
structure Moment where
  micros : Nat
  offset : Option Int
  inCalendar : micros < Calendar.size * 86400000000
deriving DecidableEq

namespace Moment

def microsPerDay : Nat := 86400000000

theorem day_lt (m : Moment) : m.micros / microsPerDay < Calendar.size := by
  have := m.inCalendar
  simp only [microsPerDay]
  omega

def day (m : Moment) : Day := ⟨m.micros / microsPerDay, m.day_lt⟩

/-- Hour, minute, second and microsecond. -/
def clock (m : Moment) : Nat × Nat × Nat × Nat :=
  let t := m.micros % microsPerDay
  (t / 3600000000, t / 60000000 % 60, t / 1000000 % 60, t % 1000000)

/-- The reading of the clock at universal time. -/
def universal (m : Moment) : Int := m.micros - m.offset.getD 0

/-- The moment a number of microseconds later on the same clock. -/
def later? (m : Moment) (micros : Int) : Option Moment :=
  let n : Int := m.micros + micros
  if h : n.toNat < Calendar.size * 86400000000 ∧ 0 ≤ n then some ⟨n.toNat, m.offset, h.1⟩ else none

/-- A number of seconds in whole microseconds, a half going to the even neighbour. The fraction of
a second is scaled in machine numbers. -/
def microsOfSeconds (seconds : Float) : Except ArithmeticFault Int :=
  match Binary.ofFloat seconds with
  | .notANumber => .error .notANumber
  | .infinite _ => .error .infinite
  | .finite negative m q =>
    let whole := if 0 ≤ q then m * Nat.pow 2 q.toNat else m / Nat.pow 2 (-q).toNat
    let fraction :=
      if 0 ≤ q then 0 else Float.ofNat (m % Nat.pow 2 (-q).toNat) * Float.scaleB 1 q
    let rest :=
      match Binary.ofFloat (fraction * 1000000) with
      | .finite _ k e =>
        if 0 ≤ e then k * Nat.pow 2 e.toNat else roundDiv k (Nat.pow 2 (-e).toNat)
      | _ => 0
    .ok (Binary.signed negative (whole * 1000000 + rest))

/-! ## Writing -/

/-- Microseconds after a point, when there are some. -/
def fractionText (micro : Nat) : String :=
  if micro = 0 then "" else "." ++ Decimal.paddedText 6 micro

/-- An offset as hours and minutes, and seconds when there are parts of a minute. -/
def offsetText (micros : Int) : String :=
  let n := micros.natAbs
  let seconds := n / 1000000
  (if micros < 0 then "-" else "+")
    ++ Decimal.paddedText 2 (seconds / 3600) ++ ":" ++ Decimal.paddedText 2 (seconds / 60 % 60)
    ++ (if n % 60000000 = 0 then "" else
      ":" ++ Decimal.paddedText 2 (seconds % 60) ++ fractionText (n % 1000000))

/-- Date and time with a separator, the fraction when it is not zero, and the offset. -/
def textWith (separator : String) (m : Moment) : String :=
  let (hour, minute, second, micro) := m.clock
  m.day.text ++ separator
    ++ ":".intercalate ([hour, minute, second].map (Decimal.paddedText 2))
    ++ fractionText micro
    ++ (m.offset.map offsetText).getD ""

/-- How messages show a duration: in days, seconds and microseconds as far as they are not zero. -/
def shownDuration (micros : Int) : String :=
  let parts := [("days", Int.fdiv micros microsPerDay),
    ("seconds", Int.fmod micros microsPerDay / 1000000), ("microseconds", Int.fmod micros 1000000)]
  "datetime.timedelta("
    ++ ", ".intercalate ((parts.filter (·.2 ≠ 0)).map fun (name, n) => s!"{name}={n}") ++ ")"

/-- How messages show an offset from universal time. -/
def shownOffset (micros : Int) : String :=
  if micros = 0 then "datetime.timezone.utc"
  else "datetime.timezone(" ++ shownDuration micros ++ ")"

/-- The form in which messages show a moment: numbers after the minute only as far as they are
not zero. -/
def shown (m : Moment) : String :=
  let (year, month, day) := m.day.date
  let (hour, minute, second, micro) := m.clock
  let fine :=
    if micro ≠ 0 then [second, micro] else if second ≠ 0 then [second] else []
  let parts := ([year, month, day, hour, minute] ++ fine).map toString
    ++ (m.offset.map fun s => "tzinfo=" ++ shownOffset s).toList
  "datetime.datetime(" ++ ", ".intercalate parts ++ ")"

example : offsetText (-3600500000) = "-01:00:00.500000" := by decide +kernel
example : shownOffset (-28800000000)
    = "datetime.timezone(datetime.timedelta(days=-1, seconds=57600))" := by
  decide +kernel

end Moment

end AngularMotion
