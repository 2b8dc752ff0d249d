import AngularMotion.Interpolation
import AngularMotion.Proofs.Quaternion.Rotation
import Mathlib.Data.List.Forall2

/-!
# Derivatives that are not trusted

Interpolation depends on a sample only as far as it is trusted. Untrusted derivatives enter the
residuals and their rows, but neither the signs nor the threshold nor the rows that are kept: an
attempt is the same for a sample without them (`attempt_trusted`), and so is the first offset
(`firstOffset_trusted`). Nothing is asked of the numbers here, so that this holds of stored numbers
as it does of exact ones.

* `interpolate_of_alike`: samples that agree as far as they are trusted have the same outcome, with
  the same restarts on the way.
-/

namespace AngularMotion

variable {τ α : Type}

/-! ## What is trusted -/

section Definitions

variable [Zero α]

/-- A motion without the derivatives that are not trusted. -/
def Coordinates.trusted (trust : Trust) (c : Coordinates α) : Coordinates α where
  rotation := c.rotation
  rate := if 1 ≤ trust.maxOrder then c.rate else 0
  acceleration := if 2 ≤ trust.maxOrder then c.acceleration else 0

def Stamped.trusted (trust : Trust) (point : Stamped τ (Coordinates α)) :
    Stamped τ (Coordinates α) :=
  ⟨point.time, point.motion.trusted trust⟩

def Interpolation.Residual.trusted (trust : Trust) (r : Residual τ α) : Residual τ α :=
  { r with motion := r.motion.trusted trust }

end Definitions

/-- The same instant and the same rotation, and the same derivatives as far as they are trusted. -/
structure Stamped.Alike (trust : Trust) (point other : Stamped τ (Coordinates α)) : Prop where
  time : other.time = point.time
  rotation : other.motion.rotation = point.motion.rotation
  rate : 1 ≤ trust.maxOrder → other.motion.rate = point.motion.rate
  acceleration : 2 ≤ trust.maxOrder → other.motion.acceleration = point.motion.acceleration

theorem Stamped.Alike.trusted_eq [Zero α] {trust : Trust}
    {point other : Stamped τ (Coordinates α)} (h : point.Alike trust other) :
    other.trusted trust = point.trusted trust := by
  have hrate : (if 1 ≤ trust.maxOrder then other.motion.rate else 0)
      = if 1 ≤ trust.maxOrder then point.motion.rate else 0 := by
    split
    · rename_i horder
      exact h.rate horder
    · rfl
  have hacceleration : (if 2 ≤ trust.maxOrder then other.motion.acceleration else 0)
      = if 2 ≤ trust.maxOrder then point.motion.acceleration else 0 := by
    split
    · rename_i horder
      exact h.acceleration horder
    · rfl
  simp only [Stamped.trusted, Coordinates.trusted, h.time, h.rotation, hrate, hacceleration]

namespace Interpolation

variable [Storable α] [Zero α] [One α] [Add α] [Sub α] [Mul α] [Div α] [OfNat α 2]
  (p : Working α) (trust : Trust)

/-! ## Attempts -/

/-- The rows that are kept need no derivative that is not trusted. -/
theorem take_rows_trusted (c : Coordinates α) (sign : α) :
    (Rodrigues.encode (c.trusted trust) sign).rows.take (trust.maxOrder + 1)
      = (Rodrigues.encode c sign).rows.take (trust.maxOrder + 1) := by
  cases trust <;> rfl

variable [Elementary α] [LT α] [DecidableLT α]

/-- An attempt uses residuals as far as they are trusted. -/
theorem attemptFrom_trusted (threshold sign : α) (previous : Quaternion α)
    (rs : List (Except (Fault τ) (Residual τ α))) :
    attemptFrom p trust threshold sign previous (rs.map (·.map (Residual.trusted trust)))
      = attemptFrom p trust threshold sign previous rs := by
  induction rs generalizing sign previous with
  | nil => rfl
  | cons found rest ih =>
    cases found with
    | error fault => rfl
    | ok r =>
      rw [List.map_cons, attemptFrom, attemptFrom]
      change (if _ then _ else _) = (if _ then _ else _)
      simp only [Residual.trusted, take_rows_trusted, ih]
      rfl

variable [Neg α] [Timeline τ α] (time : τ)

/-- What an offset leaves of a point is trusted as far as the point is. -/
theorem residual_trusted (offset point : Stamped τ (Coordinates α)) :
    (residual p time offset (point.trusted trust)).map (Residual.trusted trust)
      = (residual p time offset point).map (Residual.trusted trust) := by
  have hrest : ∀ model : Coordinates α,
      ((point.motion.trusted trust).subtractOffset model).trusted trust
        = (point.motion.subtractOffset model).trusted trust := by
    intro model
    cases trust <;> rfl
  rw [residual, residual]
  change (Timeline.since point.time time >>= _).map _ = (Timeline.since point.time time >>= _).map _
  cases Timeline.since point.time time with
  | error fault => rfl
  | ok dt =>
    change (offset.shiftedBy p dt >>= _).map _ = (offset.shiftedBy p dt >>= _).map _
    cases offset.shiftedBy p dt with
    | error fault => rfl
    | ok model =>
      change Except.ok _ = Except.ok _
      simp only [Residual.trusted, Stamped.trusted, hrest]

theorem residuals_trusted (sample : List (Stamped τ (Coordinates α)))
    (offset : Stamped τ (Coordinates α)) :
    (residuals p time (sample.map (·.trusted trust)) offset).map (·.map (Residual.trusted trust))
      = (residuals p time sample offset).map (·.map (Residual.trusted trust)) := by
  have hcomm : ∀ found : Except ClockFault (Residual τ α),
      (found.mapError (Fault.clock (τ := τ))).map (Residual.trusted trust)
        = (found.map (Residual.trusted trust)).mapError Fault.clock := by
    intro found
    cases found <;> rfl
  simp only [residuals, List.map_map, Function.comp_def, hcomm, residual_trusted]

/-- An attempt uses a sample as far as it is trusted. -/
theorem attempt_trusted (sample : List (Stamped τ (Coordinates α)))
    (offset : Stamped τ (Coordinates α)) (threshold : α) :
    attempt p trust time (sample.map (·.trusted trust)) offset threshold
      = attempt p trust time sample offset threshold := by
  rw [attempt, attempt, attemptOn, attemptOn, ← attemptFrom_trusted, residuals_trusted,
    attemptFrom_trusted]

/-! ## The first offset -/

variable [OfScientific α]

/-- The mean rate is that of the trusted part of a sample. -/
theorem meanRate_trusted (sample : List (Stamped τ (Coordinates α))) :
    meanRate p trust (sample.map (·.trusted trust)) = meanRate p trust sample := by
  have hzip : (sample.map (·.trusted trust)).zip (sample.map (·.trusted trust)).tail
      = (sample.zip sample.tail).map (Prod.map (·.trusted trust) (·.trusted trust)) := by
    rw [← List.map_tail, List.zip_map]
  rw [meanRate, meanRate, hzip, List.mapM_map, List.isEmpty_map, List.length_map, List.map_map]
  cases trust <;> rfl

theorem firstOffset_trusted (sample : List (Stamped τ (Coordinates α))) :
    firstOffset p trust time (sample.map (·.trusted trust)) = firstOffset p trust time sample := by
  rw [firstOffset, firstOffset, meanRate_trusted]

/-! ## Searches -/

variable [NatCast α] [OfNat α 4]

omit [Timeline τ α] in
/-- Searches on reductions of one size are the same if the models restart alike and every attempt is
the same. -/
theorem search_congr {ω : Type} {r other : Reduction τ α ω} (hsize : other.size = r.size)
    (hrestarted : other.restarted = r.restarted)
    (hattempt : ∀ offset threshold, attemptOn p trust threshold (other.residuals offset)
      = attemptOn p trust threshold (r.residuals offset)) (left index : Nat) (offset : ω) :
    search p trust time other left index offset = search p trust time r left index offset := by
  induction left generalizing index offset with
  | zero => rw [search, search, hsize]
  | succ left ih =>
    have hrest : search p trust time other left (index + 1)
        = search p trust time r left (index + 1) := funext (ih (index + 1))
    rw [search, search]
    simp only [hsize, hattempt, Reduction.restart, hrestarted, hrest]

/-- Interpolation uses a sample as far as it is trusted. -/
theorem interpolate_trusted (sample : List (Stamped τ (Coordinates α))) :
    interpolate p trust time (sample.map (·.trusted trust)) = interpolate p trust time sample := by
  have hsize : (sample.map (·.trusted trust)).length = sample.length := List.length_map _
  have hrestarted : (reduction p time (sample.map (·.trusted trust))).restarted
      = (reduction p time sample).restarted := by
    simp only [reduction, hsize]
  have hsearch := search_congr p trust time (r := reduction p time sample) hsize hrestarted
    (attempt_trusted p trust time sample)
  have hsettle : settle p trust time (sample.map (·.trusted trust))
      = settle p trust time sample := by
    rw [settle, settle, firstOffset_trusted]
    cases firstOffset p trust time sample with
    | error fault => rfl
    | ok first =>
      rw [settleFrom, settleFrom, hsearch]
      simp only [reduction, hsize]
  rw [interpolate, interpolate, hsettle]

/-- Samples that agree as far as they are trusted are interpolated alike, whatever their other
derivatives are: with the same result or fault, after the same restarts. -/
theorem interpolate_of_alike {sample others : List (Stamped τ (Coordinates α))}
    (h : List.Forall₂ (Stamped.Alike trust) sample others) :
    interpolate p trust time others = interpolate p trust time sample := by
  have htrusted : others.map (·.trusted trust) = sample.map (·.trusted trust) := by
    induction h with
    | nil => rfl
    | cons halike _ ih => rw [List.map_cons, List.map_cons, halike.trusted_eq, ih]
  rw [← interpolate_trusted p trust time others, htrusted, interpolate_trusted]

/-- A tilt within a second, with a rate before it and an acceleration after it. -/
noncomputable def tilting (rate acceleration : Vec3 ℝ) : List (Stamped ℝ (Coordinates ℝ)) :=
  [⟨0, ⟨1, 0⟩, rate, 0⟩, ⟨1, .tilt, 0, acceleration⟩]

/-- Where rotations alone are trusted, other rates make no difference; where rates are trusted as
well, other accelerations make none. -/
theorem interpolate_tilting_of_alike :
    interpolate (.exact 0) .rotation (1 / 2) (tilting ⟨5, 0, 0⟩ ⟨0, 1, 0⟩)
        = interpolate (.exact 0) .rotation (1 / 2) (tilting 0 0)
      ∧ interpolate (.exact 0) .rate (1 / 2) (tilting ⟨5, 0, 0⟩ ⟨0, 1, 0⟩)
        = interpolate (.exact 0) .rate (1 / 2) (tilting ⟨5, 0, 0⟩ 0) := by
  have hrotation : List.Forall₂ (Stamped.Alike .rotation) (tilting 0 0)
      (tilting ⟨5, 0, 0⟩ ⟨0, 1, 0⟩) :=
    .cons ⟨rfl, rfl, nofun, nofun⟩ (.cons ⟨rfl, rfl, nofun, nofun⟩ .nil)
  have hrate : List.Forall₂ (Stamped.Alike .rate) (tilting ⟨5, 0, 0⟩ 0)
      (tilting ⟨5, 0, 0⟩ ⟨0, 1, 0⟩) :=
    .cons ⟨rfl, rfl, fun _ => rfl, nofun⟩ (.cons ⟨rfl, rfl, fun _ => rfl, nofun⟩ .nil)
  exact ⟨interpolate_of_alike _ _ _ hrotation, interpolate_of_alike _ _ _ hrate⟩

end Interpolation

end AngularMotion
