import AngularMotion.Number.Word
import AngularMotion.Playback

/-!
# Options of a playback

Whole and machine numbers lay out a playback: they are instants on a time line of their own.
Playback computes in double precision, so that whole numbers are factors as long as they fit into
long words.

The layout of a playback is read from pairs of an option and its value; what is not given keeps the
standard value.
-/

namespace AngularMotion

instance : Schedule Quantity Scalar where
  before a b := .ok (a.lt b)
  after a b := .ok (b.lt a)
  aligned qs := qs.all fun q => !q.isNaN
  since a b := (Scalar.constant <$> (a.sub b >>= Quantity.toFloat)).mapError .arithmetic
  shift a dt := (a.add (.real dt.value)).mapError .arithmetic
  factor := Word.long.constant
  steps := Quantity.floorDiv
  multiple i step := Quantity.mul (.whole i) step
  portion t i n := do (← t.mul (.whole i)).div (.whole n)

namespace Playback

/-- Ten minutes of a slow spin, sampled every thirty seconds. -/
def Settings.standard : Settings Quantity where
  rate := .real 0.02
  step := .real 30
  duration := .real 600
  points := .number 4
  trust := .rate
  queries := .number 200

/-- Why options cannot be read. -/
inductive OptionFault where
  | unknown (name : String)
  | withoutValue (name : String)
  | notANumber (name value : String)
  | notAnInteger (name value : String)
  | notAChoice (name value : String)
deriving DecidableEq

def OptionFault.message : OptionFault → String
  | unknown name => s!"No such option: {name}"
  | withoutValue name => s!"Option '{name}' requires an argument."
  | notANumber name value => s!"Invalid value for '{name}': '{value}' is not a valid float."
  | notAnInteger name value => s!"Invalid value for '{name}': '{value}' is not a valid integer."
  | notAChoice name value =>
    s!"Invalid value for '{name}': '{value}' is not one of 'use_r', 'use_rr'."

/-! ## Numerals -/

def digits? (cs : List Char) : Option Nat :=
  if cs.all Char.isDigit then
    some (cs.foldl (fun n c => 10 * n + (c.toNat - '0'.toNat)) 0)
  else none

/-- The sign of a numeral and what follows it. -/
def signed? : List Char → Bool × List Char
  | '-' :: rest => (true, rest)
  | '+' :: rest => (false, rest)
  | cs => (false, cs)

def integer? (s : String) : Option Int :=
  let (negative, cs) := signed? s.toList
  if cs.isEmpty then none else (digits? cs).map (Binary.signed negative)

/-- Digits with an optional point and an optional exponent. -/
def numeral? (s : String) : Option Float := do
  let (negative, cs) := signed? s.toList
  let mantissa := cs.takeWhile fun c => c ≠ 'e' ∧ c ≠ 'E'
  let whole := mantissa.takeWhile (· ≠ '.')
  let fraction := (mantissa.dropWhile (· ≠ '.')).drop 1
  if whole.isEmpty && fraction.isEmpty then none
  let scale ← match cs.drop mantissa.length with
    | [] => some 0
    | _ :: rest => integer? (String.ofList rest)
  let exponent := scale - (fraction.length : Int)
  let size := Float.ofScientific (← digits? (whole ++ fraction)) (exponent < 0) exponent.natAbs
  return if negative then -size else size

/-! ## Reading options -/

namespace Settings

def readReal (name value : String) : Except OptionFault Quantity :=
  match numeral? value with
  | some x => .ok (.real x)
  | none => .error (.notANumber name value)

def readInteger (name value : String) : Except OptionFault Int :=
  match integer? value with
  | some n => .ok n
  | none => .error (.notAnInteger name value)

def readTrust (name value : String) : Except OptionFault Trust :=
  if value = "use_r" then .ok .rotation
  else if value = "use_rr" then .ok .rate
  else .error (.notAChoice name value)

/-- The settings with one option changed. -/
def set (s : Settings Quantity) (name value : String) :
    Except OptionFault (Settings Quantity) := do
  match name with
  | "--rate" => return { s with rate := ← readReal name value }
  | "--step" => return { s with step := ← readReal name value }
  | "--duration" => return { s with duration := ← readReal name value }
  | "--points" => return { s with points := .number (← readInteger name value) }
  | "--derivatives" => return { s with trust := ← readTrust name value }
  | "--queries" => return { s with queries := .number (← readInteger name value) }
  | _ => throw (.unknown name)

def ofArguments (s : Settings Quantity) : List String → Except OptionFault (Settings Quantity)
  | [] => .ok s
  | [name] => .error (.withoutValue name)
  | name :: value :: rest => do ofArguments (← s.set name value) rest

end Settings

end Playback

end AngularMotion
