import AngularMotion.Text.Quoted
import AngularMotion.Time.Moment

/-!
# Written dates and times

Dates and times are read in the forms of the international standard: a date by month and day or by
week and weekday, with dashes or without, then any one character, then a clock reading with colons or
without, a fraction of the second, and an offset from universal time, which is `Z` or a sign with a
clock reading. All after the date may be missing, and on the clock all after the hour.

Texts are read by their bytes. A zero byte where a reading or `Z` may end is the end of it.
-/

namespace AngularMotion

/-- Why a text is no date or time. -/
inductive WrittenFault where
  | malformed (text : String)
  | year (year : Nat)
  | month
  | day
  | hour
  | minute
  | second
  /-- The offset is as long as a day. -/
  | offset (micros : Int)
deriving DecidableEq

def WrittenFault.message : WrittenFault → String
  | malformed text => "Invalid isoformat string: " ++ Text.quoted text
  | year n => s!"year {n} is out of range"
  | month => "month must be in 1..12"
  | day => "day is out of range for month"
  | hour => "hour must be in 0..23"
  | minute => "minute must be in 0..59"
  | second => "second must be in 0..59"
  | offset micros =>
    "offset must be a timedelta strictly between -timedelta(hours=24) and timedelta(hours=24), not "
      ++ Moment.shownDuration micros ++ "."

namespace Written

/-- The bytes of a text, each as the character of its number. -/
def bytes (s : String) : List Char := s.toUTF8.toList.map fun b => Char.ofNat b.toNat

/-- Whether nothing is left to read. -/
def ended : List Char → Bool
  | [] | '\x00' :: _ => true
  | _ => false

/-- The number that the first `count` characters spell, and what follows it. -/
def digits? (count : Nat) (cs : List Char) : Option (Nat × List Char) :=
  let numeral := cs.take count
  if numeral.length = count ∧ numeral.all Char.isDigit then
    some (numeral.foldl (fun n c => 10 * n + (c.toNat - '0'.toNat)) 0, cs.drop count)
  else none

/-! ## Dates -/

inductive Date where
  | civil (year month day : Nat)
  /-- A day of a week that the year counts from its first week with four days on. -/
  | week (year week day : Nat)
deriving DecidableEq

/-- What follows a dash, if there are dashes. -/
def afterDash? (dashed : Bool) (cs : List Char) : Option (List Char) :=
  match dashed, cs with
  | false, cs => some cs
  | true, '-' :: rest => some rest
  | true, _ => none

/-- The number of the Monday that begins the first week of a year: the week with the fourth of
January. -/
def firstMonday (year : Nat) : Nat :=
  let fourth := Calendar.daysBeforeYear year + 3
  fourth - fourth % 7

/-- The count of weeks of a year: as many as begin before the first week of the next one. Weeks recur
after four hundred years; counted there, the year zero has its weeks too, though none of its days
is in the calendar. -/
def weeksIn (year : Nat) : Nat := (firstMonday (year + 401) - firstMonday (year + 400)) / 7

/-- A day of a week, if the year has that week and the week that day. -/
def week? (year number day : Nat) : Option Date :=
  if number = 0 ∨ weeksIn year < number ∨ day = 0 ∨ 7 < day then none
  else some (.week year number day)

/-- A date at the beginning of a text. A week with nothing behind it stands for its Monday. -/
def date? (cs : List Char) : Option Date := do
  let (year, rest) ← digits? 4 cs
  let dashed := rest.head? = some '-'
  match ← afterDash? dashed rest with
  | 'W' :: rest =>
    let (number, rest) ← digits? 2 rest
    if rest.isEmpty then week? year number 1
    else
      let (day, _) ← digits? 1 (← afterDash? dashed rest)
      week? year number day
  | rest =>
    let (month, rest) ← digits? 2 rest
    let (day, _) ← digits? 2 (← afterDash? dashed rest)
    return .civil year month day

def Date.day : Date → Except WrittenFault Day
  | civil year month day =>
    if year = 0 then .error (.year year)
    else if month = 0 ∨ 12 < month then .error .month
    else
      match Day.ofDate? year month day with
      | some d => .ok d
      | none => .error .day
  | week 0 _ _ => .error .month
  | week year number day =>
    let place := firstMonday year + (number - 1) * 7 + (day - 1)
    if h : place < Calendar.size then .ok ⟨place, h⟩ else .error (.year (year + 1))

/-! ## Clock readings -/

structure Clock where
  hour : Nat
  minute : Nat
  second : Nat
  micro : Nat
deriving DecidableEq

/-- How the numbers of a clock reading end: with its text, before a fraction, or with characters that
belong to nothing. -/
inductive Ending where
  | complete
  | fraction (cs : List Char)
  | loose
deriving DecidableEq

/-- Up to `left` numbers of two digits, and how they end. Whether colons divide them shows after the
first. -/
def numbers? : (left : Nat) → (colons : Option Bool) → List Char → Option (List Nat × Ending)
  | 0, _, cs => some ([], .fraction cs)
  | left + 1, colons, cs => do
    let (n, rest) ← digits? 2 cs
    match rest with
    | [] => return ([n], .complete)
    | [c] => return ([n], if ended [c] then .complete else .loose)
    | c :: more =>
      let colons := colons.getD (c = ':')
      if colons && c = ':' then
        let (ns, ending) ← numbers? left (some colons) more
        return (n :: ns, ending)
      else if c = '.' ∨ c = ',' then return ([n], .fraction more)
      else if colons then none
      else
        let (ns, ending) ← numbers? left (some colons) rest
        return (n :: ns, ending)

/-- The first six digits of a fraction as microseconds, and whether characters other than more digits
follow. -/
def fraction? (cs : List Char) : Option (Nat × Bool) := do
  let count := min cs.length 6
  let (n, rest) ← digits? count cs
  return (n * Nat.pow 10 (6 - count), !ended (rest.dropWhile Char.isDigit))

/-- A clock reading, and whether loose characters follow it. -/
def clock? (cs : List Char) : Option (Clock × Bool) := do
  let (ns, ending) ← numbers? 3 none cs
  let reading (micro : Nat) : Clock := ⟨ns.getD 0 0, ns.getD 1 0, ns.getD 2 0, micro⟩
  match ending with
  | .complete => return (reading 0, false)
  | .loose => return (reading 0, true)
  | .fraction cs =>
    let (micro, loose) ← fraction? cs
    return (reading micro, loose)

/-- A clock reading without anything loose. -/
def wholeClock? (cs : List Char) : Option Clock := do
  let (clock, loose) ← clock? cs
  if loose then none else some clock

def Clock.seconds (c : Clock) : Nat := c.hour * 3600 + c.minute * 60 + c.second

/-- The microseconds of a reading that lies within a day. -/
def Clock.micros (c : Clock) : Except WrittenFault Nat :=
  if 23 < c.hour then .error .hour
  else if 59 < c.minute then .error .minute
  else if 59 < c.second then .error .second
  else .ok (c.seconds * 1000000 + c.micro)

/-! ## Offsets -/

/-- A reading as an offset in microseconds. Less than a second is no offset. -/
def Clock.offset (negative : Bool) (c : Clock) : Int :=
  if c.seconds = 0 then 0 else Binary.signed negative (c.seconds * 1000000 + c.micro)

/-- An offset, which begins with `Z` or a sign; nothing means no offset. -/
def offset? : List Char → Option (Option Int)
  | [] => some none
  | 'Z' :: rest => if ended rest then some (some 0) else none
  | '+' :: rest => (wholeClock? rest).map fun c => some (c.offset false)
  | '-' :: rest => (wholeClock? rest).map fun c => some (c.offset true)
  | _ => none

/-- A time of the day and its offset. Characters that belong to nothing may stand before an offset
only. -/
def time? (cs : List Char) : Option (Clock × Option Int) := do
  let reading := cs.takeWhile fun c => c ≠ '+' ∧ c ≠ '-' ∧ c ≠ 'Z'
  let (clock, loose) ← clock? reading
  let offset ← offset? (cs.drop reading.length)
  if loose ∧ offset.isNone then none else some (clock, offset)

/-! ## Date and time -/

/-- The length of the date at the beginning of a text. A week date without dashes, all of whose digits
up to the first other character are taken together, has a weekday if they are odd in number. A week
date with dashes has none if what would follow it is a digit. -/
def dateLength (cs : List Char) : Nat :=
  if cs.length = 7 then 7
  else
    match cs.drop 4 with
    | '-' :: 'W' :: _ =>
      if cs[8]? = some '-' ∧ ¬(cs[10]?.any Char.isDigit) then 10 else 8
    | '-' :: _ => 10
    | 'W' :: _ =>
      let count := 7 + ((cs.drop 7).takeWhile Char.isDigit).length
      if count < 9 then count else if count % 2 = 0 then 7 else 8
    | _ => 8

/-- The bytes after the first character of a text; the first byte tells how many belong to it. -/
def afterCharacter : List Char → List Char
  | [] => []
  | c :: rest =>
    rest.drop (if c.toNat < 0xc0 then 0 else if c.toNat < 0xe0 then 1 else if c.toNat < 0xf0 then 2 else 3)

end Written

/-- Reads a date. -/
def Day.ofText (s : String) : Except WrittenFault Day :=
  let cs := Written.bytes s
  match if cs.length ∈ [7, 8, 10] then Written.date? cs else none with
  | some date => date.day
  | none => .error (.malformed s)

/-- Reads a date, a separator and a time of the day with an optional offset; a date alone is its
midnight. -/
def Moment.ofText (s : String) : Except WrittenFault Moment := do
  let cs := Written.bytes s
  let length := Written.dateLength cs
  let some date := Written.date? (cs.take length) | throw (.malformed s)
  let some (clock, offset) := if cs.length ≤ length then some (⟨0, 0, 0, 0⟩, none)
    else Written.time? (Written.afterCharacter (cs.drop length)) | throw (.malformed s)
  if let some micros := offset.filter fun n => microsPerDay ≤ n.natAbs then throw (.offset micros)
  let day ← date.day
  let micros := day.number * microsPerDay + (← clock.micros)
  if h : micros < Calendar.size * 86400000000 then return ⟨micros, offset, h⟩
  else throw .hour

end AngularMotion
