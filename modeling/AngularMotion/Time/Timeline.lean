import AngularMotion.Number.Quantity

/-!
# What is asked of instants

Instants are compared, subtracted and shifted by a number of seconds. Each of these may fail, when
instants of different kinds meet or when a result has no place. Interpolation uses instants only
through these classes.
-/

namespace AngularMotion

/-- Why an operation on instants fails; kinds of instants are given by their words. -/
inductive ClockFault where
  | unsupported (operation left right : String)
  /-- A number of a kind cannot be appended to a text. -/
  | appended (kind : String)
  | incomparable (relation left right : String)
  /-- Only one of two moments has an offset from universal time. -/
  | mixedDifference
  | mixedComparison
  /-- A day is not compared with a moment. -/
  | momentWithDay
  | outsideCalendar
  | durationTooLong (days : Int)
  | arithmetic (fault : ArithmeticFault)
deriving DecidableEq

/-- The text of a fault, unless it is a fault of arithmetic without one. A count of days outside the
thirty-two bits of a word is not shown. -/
def ClockFault.message? : ClockFault → Option String
  | unsupported operation left right =>
    s!"unsupported operand type(s) for {operation}: '{left}' and '{right}'"
  | appended kind => s!"can only concatenate str (not \"{kind}\") to str"
  | incomparable relation left right =>
    s!"'{relation}' not supported between instances of '{left}' and '{right}'"
  | mixedDifference => "can't subtract offset-naive and offset-aware datetimes"
  | mixedComparison => "can't compare offset-naive and offset-aware datetimes"
  | outsideCalendar => "date value out of range"
  | momentWithDay => "can't compare datetime.datetime to datetime.date"
  | durationTooLong days =>
    if -Int.pow 2 31 ≤ days ∧ days < Int.pow 2 31 then
      s!"days={days}; must have magnitude <= 999999999"
    else "Python int too large to convert to C int"
  | arithmetic fault => fault.message?

/-- Order of instants: whether one lies before, or after, another. -/
class Chronology (τ : Type) where
  before : τ → τ → Except ClockFault Bool
  after : τ → τ → Except ClockFault Bool
  /-- Whether the instants of a list lie on one line: any two of them can be compared, and being
  neither before nor after each other is transitive. -/
  aligned : List τ → Bool

/-- Durations between instants, in seconds. -/
class Timeline (τ : Type) (α : outParam Type) extends Chronology τ where
  /-- `since t s` is the time from `s` to `t`. -/
  since : τ → τ → Except ClockFault α
  shift : τ → α → Except ClockFault τ

end AngularMotion
