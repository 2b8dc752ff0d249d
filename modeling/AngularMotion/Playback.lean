import AngularMotion.Ephemeris

/-!
# Playback of a spin

A spin at a constant rate is sampled in equal steps and made into a table. The table is then asked
for motions at equally spaced instants, and the largest errors of their rotations and rates are
reported. The report leaves out how long the queries took and how many there were in a second, which
only a clock can tell.
-/

namespace AngularMotion

/-- What is asked of the numbers that lay out a playback: they are instants, durations and a rate at
once. -/
class Schedule (κ : Type) (α : outParam Type) extends Timeline κ α where
  /-- The number as the formulas use it. -/
  factor : κ → Except ArithmeticFault α
  /-- The count of whole steps in a duration. -/
  steps : (duration step : κ) → Except ArithmeticFault Int
  multiple : (count : Nat) → (step : κ) → Except ArithmeticFault κ
  /-- `portion t i n` is the `i`-th of the `n` parts of `t`. -/
  portion : (t : κ) → (i : Nat) → (n : Int) → Except ArithmeticFault κ

namespace Playback

/-- The layout of a playback; `rate`, `step` and `duration` in seconds and radians. -/
structure Settings (κ : Type) where
  rate : κ
  step : κ
  duration : κ
  points : Count
  trust : Trust
  queries : Count

/-- What a playback tells on its way. -/
inductive Note (κ α : Type) where
  | sampling (rate step duration : κ)
  | sampled (size : Nat) (first last : κ)
  | interpolating (queries : Count)
  | finished (rotationError rateError : α)

/-- The notes of a playback, and the fault that ended it early. -/
structure Report (κ α : Type) where
  notes : List (Note κ α)
  failure : Option (Fault κ)

variable {κ α : Type} [Schedule κ α] [Elementary α] [Storable α]
  [Zero α] [One α] [Add α] [Sub α] [Mul α] [Neg α] [Div α] [NatCast α] [OfNat α 2] [OfNat α 3]
  [OfNat α 4] [OfScientific α] [LT α] [DecidableLT α]

/-! ## The spin -/

/-- The rate vector of a spin about the fixed axis. -/
def spinRate (p : Working α) (rate : α) : Vec3 α :=
  rate • (Vec3.map p.store ⟨1, -2, 2⟩ / (3 : α))

def spinStart (p : Working α) : Quaternion α := .ofComponents p ⟨0.9, ⟨0.3, -0.2, 0.1⟩⟩

/-- The rotation of the spin at an instant. -/
def spin (p : Working α) (rate t : α) : Quaternion α :=
  (Quaternion.ofRotationVector p (t • spinRate p rate)).compose (spinStart p)

/-! ## The table -/

/-- A point of the sample; the rate is given only when it is trusted. -/
def samplePoint (p : Working α) (trust : Trust) (rate : α) (step : κ) (i : Nat) :
    Except ArithmeticFault (Stamped κ (Coordinates α)) := do
  let time ← Schedule.multiple i step
  let t ← Schedule.factor time
  let given := if trust.maxOrder = 0 then none else some (spinRate p rate)
  return ⟨time, .build p (some (spin p rate t)) given none⟩

def table (p : Working α) (s : Settings κ) (rate : α) : Except (Fault κ) (Ephemeris κ (Coordinates α)) := do
  let sample ← Except.mapError (fun fault => .clock (.arithmetic fault)) do
    let steps ← Schedule.steps s.duration s.step
    (List.range (steps + 1).toNat).mapM (samplePoint p s.trust rate s.step)
  Ephemeris.build s.trust s.points sample

/-! ## The errors -/

/-- The largest errors of rotation and rate so far. An error that is not a number is passed over. -/
structure Errors (α : Type) where
  rotation : α
  rate : α

def larger (a b : α) : α := if a < b then b else a

/-- The errors after one more query. -/
def measure (p : Working α) (s : Settings κ) (rate : α) (e : Ephemeris κ (Coordinates α)) (errors : Errors α)
    (i : Nat) : Except (Fault κ) (Errors α) := do
  let time ← (Schedule.portion e.last i (s.queries.value - 1)).mapError
    fun fault => .clock (.arithmetic fault)
  let motion ← (e.interpolate p time).result
  let t ← (Schedule.factor time).mapError fun fault => .clock (.arithmetic fault)
  return {
    rotation := larger errors.rotation (motion.motion.rotation.distance (spin p rate t))
    rate := larger errors.rate (motion.motion.rate - spinRate p rate).norm }

def errors (p : Working α) (s : Settings κ) (rate : α) (e : Ephemeris κ (Coordinates α)) :
    Except (Fault κ) (Errors α) :=
  (List.range s.queries.value.toNat).foldlM (measure p s rate e) ⟨0, 0⟩

/-! ## The report -/

def run (p : Working α) (s : Settings κ) : Report κ α :=
  let sampling : Note κ α := .sampling s.rate s.step s.duration
  match Schedule.factor s.rate with
  | .error fault => ⟨[], some (.clock (.arithmetic fault))⟩
  | .ok rate =>
    match table p s rate with
    | .error fault => ⟨[sampling], some fault⟩
    | .ok e =>
      let notes := [sampling, .sampled e.entries.length e.first e.last, .interpolating s.queries]
      match errors p s rate e with
      | .error fault => ⟨notes, some fault⟩
      | .ok errors => ⟨notes ++ [.finished errors.rotation errors.rate], none⟩

/-- The lines of a note; each stage begins with a blank one. -/
def Note.lines (text : κ → String) (number : α → Float) : Note κ α → List String
  | sampling rate step duration =>
    ["", "── Stage 1: Sampling spin of " ++ text rate ++ " rad/s every " ++ text step ++ "s over "
      ++ text duration ++ "s ──"]
  | sampled size first last =>
    [s!"  {size} samples from " ++ text first ++ "s to " ++ text last ++ "s"]
  | interpolating queries => ["", "── Stage 2: Interpolating at " ++ queries.text ++ " instants ──"]
  | finished rotationError rateError =>
    ["  Max rotation error: " ++ Decimal.exponentialText 3 (number rotationError) ++ " rad",
     "  Max rate error:     " ++ Decimal.exponentialText 3 (number rateError) ++ " rad/s",
     "", "Done."]

def Report.lines (text : κ → String) (number : α → Float) (r : Report κ α) : List String :=
  r.notes.flatMap (Note.lines text number)

end Playback

end AngularMotion
