import AngularMotion.Literal
import AngularMotion.Number.Scalar
import AngularMotion.Time.Moment
import AngularMotion.Time.Timeline

/-!
# Instants

An instant is a number of seconds, a moment, a day, or a label that only names it. Two instants of
one kind can be compared, except that missing ones cannot; only numbers, moments and days have
differences.
-/

namespace AngularMotion

inductive Instant where
  | seconds (q : Quantity)
  | moment (m : Moment)
  | day (d : Day)
  | label (s : String)
  | missing

namespace Instant

/-- The word for the kind of an instant in messages. -/
def kindName : Instant → String
  | seconds q => q.kindName
  | moment _ => "datetime.datetime"
  | day _ => "datetime.date"
  | label _ => "str"
  | missing => "NoneType"

/-- The text of an instant in running messages. -/
def text : Instant → String
  | seconds q => q.text
  | moment m => m.textWith " "
  | day d => d.text
  | label s => s
  | missing => "None"

/-- The form of an instant inside a shown value. -/
def shown : Instant → String
  | seconds q => q.text
  | moment m => m.shown
  | day d => d.shown
  | label s => Text.quoted s
  | missing => "None"

/-- Equality of instants: numbers by value, moments with offsets at universal time. -/
def same : Instant → Instant → Bool
  | seconds a, seconds b => a.eq b
  | moment a, moment b => a.offset.isSome = b.offset.isSome && a.universal = b.universal
  | day a, day b => a = b
  | label a, label b => a = b
  | missing, missing => true
  | _, _ => false

/-- Compares two instants. The relation is named when they cannot be compared. -/
def compareBy (relation : String) (holds : Ordering → Bool) (a b : Instant) :
    Except ClockFault Bool :=
  match a, b with
  | seconds p, seconds q => .ok ((p.compare? q).any holds)
  | moment m, moment n =>
    if m.offset.isSome = n.offset.isSome then .ok (holds (compare m.universal n.universal))
    else .error .mixedComparison
  | day m, day n => .ok (holds (compare m.number n.number))
  | moment _, day _ | day _, moment _ => .error .momentWithDay
  | label s, label t => .ok (holds (compare s t))
  | _, _ => .error (.incomparable relation a.kindName b.kindName)

/-- The lines on which instants are ordered. -/
inductive Line where
  | seconds
  | universal
  | wall
  | days
  | labels
deriving DecidableEq

/-- The line on which an instant lies; a value that is not a number lies on none. -/
def line? : Instant → Option Line
  | seconds q => if q.isNaN then none else some .seconds
  | moment m => some (if m.offset.isSome then .universal else .wall)
  | day _ => some .days
  | label _ => some .labels
  | missing => none

/-- Whether instants lie on one line. -/
def aligned : List Instant → Bool
  | [] => true
  | t :: rest => t.line?.isSome && rest.all (·.line? = t.line?)

/-- The time from one instant to another, in seconds. -/
def since (a b : Instant) : Except ClockFault Float :=
  match a, b with
  | seconds p, seconds q =>
    (p.sub q >>= Quantity.toFloat).mapError .arithmetic
  | moment m, moment n =>
    if m.offset.isSome = n.offset.isSome then
      let micros := m.universal - n.universal
      let size := Float.ofScientific micros.natAbs true 6
      .ok (if micros < 0 then -size else size)
    else .error .mixedDifference
  | day m, day n => .ok (Float.ofInt (((m.number : Int) - n.number) * 86400))
  | _, _ => .error (.unsupported "-" a.kindName b.kindName)

/-- The moment a number of seconds later. -/
def shiftMoment (m : Moment) (dt : Quantity) : Except ClockFault Moment := do
  let seconds ← dt.toFloat.mapError .arithmetic
  let micros ← (Moment.microsOfSeconds seconds).mapError .arithmetic
  let days := Int.fdiv micros 86400000000
  if 999999999 < days.natAbs then throw (.durationTooLong days)
  match m.later? micros with
  | some later => return later
  | none => throw .outsideCalendar

/-- The instant a number of seconds later. -/
def shift (a : Instant) (dt : Quantity) : Except ClockFault Instant :=
  match a with
  | seconds p => (seconds <$> p.add dt).mapError .arithmetic
  | moment m => moment <$> shiftMoment m dt
  | label _ => .error (.appended dt.kindName)
  | day _ | missing => .error (.unsupported "+" a.kindName dt.kindName)

instance : Timeline Instant Scalar where
  before := compareBy "<" (· == .lt)
  after := compareBy ">" (· == .gt)
  aligned := aligned
  since a b := .constant <$> a.since b
  shift a dt := a.shift (.real dt.value)

end Instant

end AngularMotion
