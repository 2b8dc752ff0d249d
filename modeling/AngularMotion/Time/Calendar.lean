import AngularMotion.Number.Decimal

/-!
# The calendar

Days of the Gregorian calendar from 1 January of year 1 to 31 December of year 9999, counted from
zero.
-/

namespace AngularMotion

namespace Calendar

def isLeap (year : Nat) : Bool := year % 4 = 0 && (year % 100 ≠ 0 || year % 400 = 0)

def monthLengths (year : Nat) : List Nat :=
  [31, if isLeap year then 29 else 28, 31, 30, 31, 30, 31, 31, 30, 31, 30, 31]

/-- Days before the first of January of a year. -/
def daysBeforeYear (year : Nat) : Nat :=
  let past := year - 1
  past * 365 + past / 4 - past / 100 + past / 400

/-- Days before the first of a month in its year. -/
def daysBeforeMonth (year month : Nat) : Nat :=
  ((monthLengths year).take (month - 1)).foldr (· + ·) 0

/-- The count of days in the calendar. -/
def size : Nat := 3652059

/-- The month and the day of the month, given the lengths of the months from one on. -/
def monthOf : (lengths : List Nat) → (month day : Nat) → Nat × Nat
  | [], month, day => (month, day + 1)
  | length :: rest, month, day =>
    if day < length then (month, day + 1) else monthOf rest (month + 1) (day - length)

/-- Year, month and day of the month. Cycles of 400, 100, 4 and 1 years are taken off in turn; the
last day of a leap cycle belongs to the year before. -/
def civil (day : Nat) : Nat × Nat × Nat :=
  let n := day % 146097
  let centuries := min (n / 36524) 3
  let n := n - centuries * 36524
  let fours := n / 1461
  let n := n % 1461
  let ones := min (n / 365) 3
  let year := day / 146097 * 400 + centuries * 100 + fours * 4 + ones + 1
  (year, monthOf (monthLengths year) 1 (n - ones * 365))

end Calendar

/-- A day of the calendar. -/
structure Day where
  number : Nat
  inCalendar : number < Calendar.size
deriving DecidableEq

namespace Day

open Calendar

/-- The day with a given date, if there is one. -/
def ofDate? (year month day : Nat) : Option Day :=
  let number := daysBeforeYear year + daysBeforeMonth year month + (day - 1)
  if h : number < size ∧ 1 ≤ year ∧ 1 ≤ month ∧ month ≤ 12 ∧ 1 ≤ day
      ∧ day ≤ (monthLengths year).getD (month - 1) 0 then
    some ⟨number, h.1⟩
  else none

def date (d : Day) : Nat × Nat × Nat := civil d.number

/-- Year, month and day of the month with dashes. -/
def text (d : Day) : String :=
  let (year, month, day) := d.date
  Decimal.paddedText 4 year ++ "-" ++ Decimal.paddedText 2 month ++ "-" ++ Decimal.paddedText 2 day

/-- The form in which messages show a day. -/
def shown (d : Day) : String :=
  let (year, month, day) := d.date
  s!"datetime.date({year}, {month}, {day})"

example : (ofDate? 2024 2 29).map date = some (2024, 2, 29) := by decide +kernel
example : ofDate? 2023 2 29 = none := by decide +kernel
example : (ofDate? 9999 12 31).map Day.number = some 3652058 := by decide +kernel
example : (ofDate? 2000 12 31).map date = some (2000, 12, 31) := by decide +kernel

end Day

end AngularMotion
