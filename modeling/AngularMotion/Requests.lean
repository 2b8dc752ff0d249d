import AngularMotion.Ephemeris
import AngularMotion.Nested
import AngularMotion.Received

/-!
# Requests

Interpolation is requested for received data, which may not have the form that the formulas ask
for.

Samples are received as motions that may lack an instant and whose rows may have any length. A
sample of regular motions is interpolated as such. Of others each point is used as far as it can be,
and the first step that it does not allow is the fault of the whole. A request may ask that the
first attempts are not made and count as refused. Where it does not, the sample is interpolated as
it is (`interpolateSkipping_zero`).

A table is made of received motions if all of them have an instant. Its entries keep the rows they
were received with, and queries meet those only in the window around an instant.

For Hermite interpolation samples are received as nested lists: points, orders of derivation,
components. The abscissae are the numbers of a list of any nesting.
-/

namespace AngularMotion

namespace Interpolation

/-! ## Thresholds -/

/-- The threshold for a size, which may be any number but zero. -/
def thresholdFor (size : Quantity) : Except ArithmeticFault Scalar := do
  let n ← size.toFloat
  if n == 0 then throw (.divisionByZero false)
  if (restartAngle (Scalar.constant n)).value.isInf then throw .outsideDomain
  return singularityThreshold (.constant n)

/-! ## Attempts that are not made -/

section Skipping

variable {τ α ω : Type} [Timeline τ α] [Elementary α] [Storable α]
  [Zero α] [One α] [Add α] [Sub α] [Mul α] [Neg α] [Div α] [NatCast α] [OfNat α 2] [OfNat α 4]
  [OfScientific α] [LT α] [DecidableLT α]

/-- Some restarts on end, from an attempt with a given index on. -/
def Reduction.restarts (r : Reduction τ α ω) (time : τ) (limit : Nat) :
    (count index : Nat) → (offset : ω) → Outcome τ α ω
  | 0, _, offset => ⟨[], .ok offset⟩
  | count + 1, index, offset =>
    (r.restart time (index + 1) limit offset).bind (r.restarts time limit count (index + 1))

/-- The attempt that settles, where the first ones are not made. -/
def settleSkipping (p : Working α) (trust : Trust) (time : τ) (r : Reduction τ α ω)
    (skipped : Nat) (first : Except (Fault τ) ω) : Outcome τ α (Settled ω α) :=
  let limit := attemptLimit r.size
  let skipped := min skipped limit
  ((Outcome.mk [] first).bind (r.restarts time limit skipped 0)).bind
    (search p trust time r (limit - skipped) skipped)

/-- The motion of a sample at an instant, where the first attempts are not made. -/
def interpolateSkipping (p : Working α) (trust : Trust) (time : τ)
    (sample : List (Stamped τ (Coordinates α))) (skipped : Nat) :
    Outcome τ α (Stamped τ (Coordinates α)) :=
  (settleSkipping p trust time (reduction p time sample) skipped
    (firstOffset p trust time sample)).map (Settled.atTarget p time)

omit [Timeline τ α] in
theorem settleSkipping_zero (p : Working α) (trust : Trust) (time : τ) (r : Reduction τ α ω)
    (first : Except (Fault τ) ω) :
    settleSkipping p trust time r 0 first = settleFrom p trust time r first := by
  rw [settleSkipping, Nat.zero_min, Nat.sub_zero]
  cases first <;> rfl

/-- Where every attempt may be made, the sample is interpolated as it is. -/
theorem interpolateSkipping_zero (p : Working α) (trust : Trust) (time : τ)
    (sample : List (Stamped τ (Coordinates α))) :
    interpolateSkipping p trust time sample 0 = interpolate p trust time sample := by
  rw [interpolateSkipping, settleSkipping_zero, interpolate, settle]

end Skipping

/-! ## Irregular samples -/

/-- The time from one point to another. -/
def timeBetween (later earlier : Received) : Except (Fault Instant) Scalar :=
  match later.times.head?, earlier.times.head? with
  | some t, some s => (Timeline.since t s).mapError .clock
  | _, _ => .error .noInstant

/-- The mean of rates of any length. -/
def meanRow (s : Setup) (trust : Trust) (sample : List Received) :
    Except (Fault Instant) (List Scalar) :=
  if sample.isEmpty then .error .emptySample
  else if 0 < trust.maxOrder then
    (Row.mean (sample.map (·.components.rate))).mapError .shape
  else if sample.length < 2 then .error (.tooFewForRates sample.length)
  else do
    let rates ← (sample.zip sample.tail).mapM fun (previous, current) => do
      let dt ← timeBetween current previous
      return Coordinates.estimateRate s.working previous.components.rotation
        current.components.rotation dt
    return (Vec3.mean rates).toList

/-- What an offset model, moved to the instant of a point, leaves of the point. A model without an
instant moves all the same. -/
def residualOf (s : Setup) (time : Instant) (offset point : Received) :
    Except (Fault Instant) (Residual Instant Scalar) := do
  let some place := point.times.head? | throw .noInstant
  let dt : Scalar ← (Timeline.since place time).mapError .clock
  let _ ← (offset.times.mapM fun t => Timeline.shift t dt).mapError .clock
  let rest ← Except.mapError .shape do
    let model ← offset.components.shiftedBy s dt
    (← point.components.subtractOffset model).coordinates Row.vectorPart
  return ⟨place, dt, rest⟩

def residualsOf (s : Setup) (time : Instant) (sample : List Received) (offset : Received) :
    List (Except (Fault Instant) (Residual Instant Scalar)) :=
  sample.map (residualOf s time offset)

/-- The reduction of received motions by received offset models. -/
def reductionOf (s : Setup) (time : Instant) (sample : List Received) :
    Reduction Instant Scalar Received where
  size := sample.length
  residuals := residualsOf s time sample
  restarted offset := do
    let turn := Components.ofCoordinates (restartTurn s.working sample.length)
    return { offset with components := ← (offset.components.addOffset turn).mapError .shape }

/-- The motion of received motions at an instant. -/
def interpolateIrregular (s : Setup) (trust : Trust) (time : Instant) (sample : List Received)
    (skipped : Nat) : Outcome Instant Scalar Received :=
  let first : Except (Fault Instant) Received := do
    return ⟨[time], .build s none (some (← meanRow s trust sample)) none⟩
  let settled := settleSkipping s.working trust time (reductionOf s time sample) skipped first
  settled.andThen fun found => do
    let motion := Components.ofCoordinates (curve s.working found.knots 0)
    return ⟨[time], ← (motion.addOffset found.offset.components).mapError .shape⟩

/-! ## Motions at an instant -/

/-- The sample as regular motions, if all of them are. -/
def regular? (sample : List Received) : Option (List (Stamped Instant (Coordinates Scalar))) :=
  sample.mapM Received.regular?

def requestedMeanRate (s : Setup) (trust : Trust) (sample : List Received) :
    Except (Fault Instant) (List Scalar) :=
  match regular? sample with
  | some points => Vec3.toList <$> meanRate s.working trust points
  | none => meanRow s trust sample

/-- The threshold for an attempt: the given one, or that of the size of the sample. -/
def requestedThreshold (sample : List Received) (threshold : Option Scalar) :
    Except (Fault Instant) Scalar :=
  match threshold with
  | some limit => .ok limit
  | none => (thresholdFor (.whole sample.length)).mapError fun fault => .clock (.arithmetic fault)

/-- An attempt with a threshold. Without points there are no rows to give. -/
def requestedAttempt (s : Setup) (trust : Trust) (time : Instant) (sample : List Received)
    (offset : Received) (threshold : Scalar) : Except (Fault Instant) (Attempt Instant Scalar) :=
  if sample.isEmpty then .error (.shape .misshapen)
  else
    match regular? sample, if offset.times.length = 1 then offset.regular? else none with
    | some points, some offset => attempt s.working trust time points offset threshold
    | _, _ => attemptOn s.working trust threshold (residualsOf s time sample offset)

def requestedMotion (s : Setup) (trust : Trust) (time : Instant) (sample : List Received)
    (skipped : Nat) : Outcome Instant Scalar Received :=
  match regular? sample with
  | some points => (interpolateSkipping s.working trust time points skipped).map Received.ofRegular
  | none => interpolateIrregular s trust time sample skipped

end Interpolation

/-! ## Tables -/

namespace Ephemeris

/-- The table of received motions. -/
def requested (trust : Trust) (points : Count) (sample : List Received) :
    Except (Fault Instant) (Ephemeris Instant Received) :=
  match sample.mapM Received.stamped? with
  | some entries => build trust points entries
  | none => .error .noInstant

/-- The motion at an instant inside the table. -/
def requestedMotion (s : Setup) (e : Ephemeris Instant Received) (time : Instant) :
    Outcome Instant Scalar Received :=
  match e.neighbors time with
  | .error fault => ⟨[], .error fault⟩
  | .ok window =>
    Interpolation.requestedMotion s e.trust time (window.map Received.ofStamped) 0

end Ephemeris

/-! ## Nested samples -/

namespace Hermite

/-- The interpolating polynomial of samples and its derivatives up to an order, if the samples
are nested three deep, the factorials of their orders fit into words, and there is a row to
compute. -/
def evaluateNested (s : Setup) (abscissae samples : Nested Scalar) (x : Scalar) (order : Int) :
    Except Refusal (List (List Scalar)) :=
  let store := Scalar.store s.precision
  let nodes := abscissae.leaves.map store
  match abscissae.shape?, samples.shape? with
  | some _, some [points, orders, width] =>
    if points * orders = 0 then .error .noRows
    else if nodes.isEmpty ∧ 1 < points then .error .noAbscissae
    else if !s.word.holds (factorial (orders - 1)) then .error (.arithmetic .outsideWord)
    else if nodes.isEmpty then .error .noAbscissae
    else if order < 0 then .error .noRows
    else .ok (evaluateRows width nodes (samples.items.map fun point => point.rows.map (·.map store))
      (store x) order.toNat)
  | some _, some shape => .error (.nesting shape.length)
  | _, _ => .error (.shape .misshapen)

end Hermite

end AngularMotion
