import AngularMotion.Event
import AngularMotion.Fault
import AngularMotion.Hermite
import AngularMotion.Rodrigues
import AngularMotion.Stamped

/-!
# Interpolation of a motion

A sample is reduced to residuals: an offset model that turns at the mean rate is taken from every
point. The modified Rodrigues vectors of the residuals, with the trusted derivatives, are
interpolated in time, and the offset is added again.

A residual near the singularity of these vectors ends the attempt; the next one starts from an offset
turned on by a fixed angle. Each point of the sample can spoil only few of these offsets.
-/

namespace AngularMotion

/-- A computation that reports events on its way. -/
structure Outcome (τ α β : Type) where
  events : List (Event τ α)
  result : Except (Fault τ) β

namespace Outcome

variable {τ α β γ : Type}

def map (f : β → γ) (o : Outcome τ α β) : Outcome τ α γ := ⟨o.events, f <$> o.result⟩

/-- The same outcome with a last step that may fail. -/
def andThen (o : Outcome τ α β) (f : β → Except (Fault τ) γ) : Outcome τ α γ :=
  ⟨o.events, o.result >>= f⟩

/-- The same outcome, with events before its own. -/
def after (earlier : List (Event τ α)) (o : Outcome τ α β) : Outcome τ α β :=
  ⟨earlier ++ o.events, o.result⟩

/-- An outcome, and what its value leads to. -/
def bind (o : Outcome τ α β) (f : β → Outcome τ α γ) : Outcome τ α γ :=
  match o.result with
  | .error fault => ⟨o.events, .error fault⟩
  | .ok x => (f x).after o.events

end Outcome

namespace Interpolation

open Elementary Storable

/-- What is left of a sample point when an offset model is taken from it, and its time from the
target. -/
structure Residual (τ α : Type) where
  time : τ
  abscissa : α
  motion : Coordinates α
deriving DecidableEq

/-- What a sample point contributes: its time from the target and the rows of its residual. -/
structure Knot (α : Type) where
  abscissa : α
  rows : List (Vec3 α)
deriving DecidableEq

/-- The end of one attempt. -/
inductive Attempt (τ α : Type) where
  | accepted (knots : List (Knot α))
  /-- The residual of a point has a signed scalar part below the threshold. -/
  | tooClose (time : τ) (scalarPart : α)
deriving DecidableEq

/-- An accepted attempt with the offset it was made for. -/
structure Settled (ω α : Type) where
  offset : ω
  knots : List (Knot α)
deriving DecidableEq

/-- What a search for a safe offset works on: how many points there are, the residuals that an offset
model leaves of them, and the model after a restart. -/
structure Reduction (τ α ω : Type) where
  size : Nat
  residuals : ω → List (Except (Fault τ) (Residual τ α))
  restarted : ω → Except (Fault τ) ω

variable {τ α ω : Type} [Timeline τ α] [Elementary α] [Storable α]
  [Zero α] [One α] [Add α] [Sub α] [Mul α] [Neg α] [Div α] [NatCast α] [OfNat α 2] [OfNat α 4]
  [OfScientific α] [LT α] [DecidableLT α]

/-! ## The offset model -/

/-- The mean of the rates of a sample. When they are not trusted, the rates that lead from each point
to the next stand in for them. -/
def meanRate (p : Working α) (trust : Trust) (sample : List (Stamped τ (Coordinates α))) :
    Except (Fault τ) (Vec3 α) :=
  if sample.isEmpty then .error .emptySample
  else if 0 < trust.maxOrder then .ok (.mean (sample.map (·.motion.rate)))
  else if sample.length < 2 then .error (.tooFewForRates sample.length)
  else do
    let rates ← (sample.zip sample.tail).mapM fun (previous, current) => do
      let dt ← (Timeline.since current.time previous.time).mapError .clock
      return Coordinates.estimateRate p previous.motion.rotation current.motion.rotation dt
    return .mean rates

/-- The model before any restart: no rotation at the target, and the mean rate. -/
def firstOffset (p : Working α) (trust : Trust) (time : τ)
    (sample : List (Stamped τ (Coordinates α))) : Except (Fault τ) (Stamped τ (Coordinates α)) := do
  let rate ← meanRate p trust sample
  return ⟨time, .build p none (some rate) none⟩

/-- The angle by which a restart turns the offset. -/
def restartAngle (size : α) : α := 2 * pi / size

/-- What a restart adds to the offset: a turn about the first axis. -/
def restartTurn (p : Working α) (size : Nat) : Coordinates α :=
  .build p (some (.ofAxisAngle p ⟨1, 0, 0⟩ (p.enter (restartAngle size)))) none none

/-- The least signed scalar part that a residual may have. It keeps a margin from `-1`, and for
large samples a smaller one. -/
def singularityThreshold (size : α) : α :=
  let margin := -(1 - 1e-4)
  let edge := -cos (restartAngle size / 4)
  if edge < margin then edge else margin

/-! ## One attempt -/

/-- What the offset model, moved to the instant of a point, leaves of the point. -/
def residual (p : Working α) (time : τ) (offset point : Stamped τ (Coordinates α)) :
    Except ClockFault (Residual τ α) := do
  let dt ← Timeline.since point.time time
  let model ← offset.shiftedBy p dt
  return ⟨point.time, dt, point.motion.subtractOffset model.motion⟩

/-- The knots of residuals, until one is too close to the singularity. The sign of each residual
keeps it in the hemisphere of the one before. -/
def attemptFrom (p : Working α) (trust : Trust) (threshold : α) :
    (sign : α) → (previous : Quaternion α) → List (Except (Fault τ) (Residual τ α)) →
      Except (Fault τ) (Attempt τ α)
  | _, _, [] => .ok (.accepted [])
  | sign, previous, found :: rest => do
    let residual ← found
    let rotation := residual.motion.rotation
    let sign := direction (plain (rotation.dot previous) * sign)
    let scalarPart := plain rotation.w * sign
    if scalarPart < threshold then return .tooClose residual.time scalarPart
    let rows := (Rodrigues.encode residual.motion sign).rows.take (trust.maxOrder + 1)
    match ← attemptFrom p trust threshold sign rotation rest with
    | .accepted knots => return .accepted (⟨p.store residual.abscissa, rows⟩ :: knots)
    | refused => return refused

/-- The first residual is compared with the identity. -/
def attemptOn (p : Working α) (trust : Trust) (threshold : α)
    (residuals : List (Except (Fault τ) (Residual τ α))) : Except (Fault τ) (Attempt τ α) :=
  attemptFrom p trust threshold 1 (.identity p) residuals

/-- The residuals of a sample. -/
def residuals (p : Working α) (time : τ) (sample : List (Stamped τ (Coordinates α)))
    (offset : Stamped τ (Coordinates α)) : List (Except (Fault τ) (Residual τ α)) :=
  sample.map fun point => (residual p time offset point).mapError .clock

def attempt (p : Working α) (trust : Trust) (time : τ) (sample : List (Stamped τ (Coordinates α)))
    (offset : Stamped τ (Coordinates α)) (threshold : α) : Except (Fault τ) (Attempt τ α) :=
  attemptOn p trust threshold (residuals p time sample offset)

/-- The events of an attempt. -/
def Attempt.events (threshold : α) : Attempt τ α → List (Event τ α)
  | .accepted _ => []
  | .tooClose time scalarPart => [.tooClose time scalarPart threshold]

/-- The motion that the knots describe, without the offset. -/
def curve (p : Working α) (knots : List (Knot α)) (x : α) : Coordinates α :=
  let rows := Hermite.evaluateVec3 (knots.map fun k => p.store k.abscissa)
    (knots.map fun k => k.rows.map (·.map p.store)) (p.store x) 2
  Rodrigues.coordinates p ⟨rows.getD 0 0, rows.getD 1 0, rows.getD 2 0⟩

/-! ## Restarts -/

/-- A restart after some attempts, of as many as there may be. -/
def Reduction.restart (r : Reduction τ α ω) (time : τ) (made limit : Nat) (offset : ω) :
    Outcome τ α ω :=
  ⟨[.restart time made limit], r.restarted offset⟩

/-- The attempts that are left, from one with a given index on. -/
def search (p : Working α) (trust : Trust) (time : τ) (r : Reduction τ α ω) :
    (left index : Nat) → (offset : ω) → Outcome τ α (Settled ω α)
  | 0, index, _ => ⟨[.gaveUp r.size time], .error (.noSafeOffset index)⟩
  | left + 1, index, offset =>
    let threshold := singularityThreshold (r.size : α)
    match attemptOn p trust threshold (r.residuals offset) with
    | .error fault => ⟨[], .error fault⟩
    | .ok (.accepted knots) => ⟨[], .ok ⟨offset, knots⟩⟩
    | .ok refused =>
      ((r.restart time (index + 1) (index + left + 1) offset).bind
        (search p trust time r left (index + 1))).after (refused.events threshold)

/-- The count of attempts for a sample of a size. -/
def attemptLimit (size : Nat) : Nat := size + 2

/-- The attempt that settles, with its offset. -/
def settleFrom (p : Working α) (trust : Trust) (time : τ) (r : Reduction τ α ω)
    (first : Except (Fault τ) ω) : Outcome τ α (Settled ω α) :=
  match first with
  | .error fault => ⟨[], .error fault⟩
  | .ok offset => search p trust time r (attemptLimit r.size) 0 offset

/-- The reduction of a sample by offset models. -/
def reduction (p : Working α) (time : τ) (sample : List (Stamped τ (Coordinates α))) :
    Reduction τ α (Stamped τ (Coordinates α)) where
  size := sample.length
  residuals := residuals p time sample
  restarted offset := .ok (offset.addOffset (restartTurn p sample.length))

def settle (p : Working α) (trust : Trust) (time : τ)
    (sample : List (Stamped τ (Coordinates α))) :
    Outcome τ α (Settled (Stamped τ (Coordinates α)) α) :=
  settleFrom p trust time (reduction p time sample) (firstOffset p trust time sample)

/-- What settled knots describe at the target, with the offset. -/
def Settled.atTarget (p : Working α) (time : τ) (s : Settled (Stamped τ (Coordinates α)) α) :
    Stamped τ (Coordinates α) :=
  ⟨time, (curve p s.knots 0).addOffset s.offset.motion⟩

/-- The motion of a sample at an instant. -/
def interpolate (p : Working α) (trust : Trust) (time : τ)
    (sample : List (Stamped τ (Coordinates α))) : Outcome τ α (Stamped τ (Coordinates α)) :=
  (settle p trust time sample).map (Settled.atTarget p time)

end Interpolation

end AngularMotion
