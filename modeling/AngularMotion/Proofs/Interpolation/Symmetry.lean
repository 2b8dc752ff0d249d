import AngularMotion.Proofs.Interpolation.Curve
import AngularMotion.Proofs.Interpolation.Search

/-!
# Symmetries of interpolation

A description of motions and instants in another way (`Reading`) is a symmetry if it commutes with
the steps of interpolation: offsets, moving on, the estimation of rates, the encoding of residuals
and the curve through knots (`Symmetry`). Each attempt on the new description then ends as the one
on the old description does (`Symmetry.attemptAt_eq`).

* `Symmetry.interpolate_eq`: if the symmetry leaves restarts as they are, the outcomes correspond,
  with all events on the way;
* `Symmetry.interpolate_eq_of_accepted`: if the first attempt is accepted, no restart matters.
-/

namespace AngularMotion

/-! ## Means -/

theorem Vec3.mean_eq (vs : List (Vec3 ℝ)) :
    Vec3.mean vs = ((vs.length : ℝ)⁻¹) • vs.foldr (· + ·) 0 := by
  have hsum : ∀ part : Vec3 ℝ → ℝ, part 0 = 0 → (∀ u v, part (u + v) = part u + part v) →
      (vs.map part).sum = part (vs.foldr (· + ·) 0) := by
    intro part hzero hadd
    induction vs with
    | nil => simp [hzero]
    | cons v vs ih => simp [hadd, ih]
  ext <;> simp [mean, Storable.mean, hsum, div_eq_inv_mul]

/-- The mean of images under a linear map. -/
theorem Vec3.mean_map {f : Vec3 ℝ → Vec3 ℝ} (hadd : ∀ u v, f (u + v) = f u + f v)
    (hsmul : ∀ (k : ℝ) u, f (k • u) = k • f u) (vs : List (Vec3 ℝ)) :
    Vec3.mean (vs.map f) = f (Vec3.mean vs) := by
  have hzero : f 0 = 0 := by
    have h := hsmul 0 0
    rwa [Vec3.smul_zero, Vec3.zero_smul] at h
  have hsum : (vs.map f).foldr (· + ·) 0 = f (vs.foldr (· + ·) 0) := by
    induction vs with
    | nil => exact hzero.symm
    | cons v vs ih => rw [List.map_cons, List.foldr_cons, List.foldr_cons, ih, hadd]
  rw [mean_eq, mean_eq, hsum, List.length_map, hsmul]

/-! ## Instants described in another way -/

variable {τ σ α β γ : Type}

def Event.mapTime (f : τ → σ) : Event τ α → Event σ α
  | tooClose time scalarPart threshold => tooClose (f time) scalarPart threshold
  | restart time attempt limit => restart (f time) attempt limit
  | gaveUp size time => gaveUp size (f time)
  | built size first last => built size (f first) (f last)

def Fault.mapTime (f : τ → σ) : Fault τ → Fault σ
  | clock fault => clock fault
  | shape fault => shape fault
  | noInstant => noInstant
  | emptySample => emptySample
  | tooFewForRates size => tooFewForRates size
  | noSafeOffset attempts => noSafeOffset attempts
  | windowTooSmall trust points => windowTooSmall trust points
  | tableTooSmall size points => tableTooSmall size points
  | outsideRange time first last => outsideRange (f time) (f first) (f last)

/-- The same outcome with its instants described in another way. -/
def Outcome.mapTime (f : τ → σ) (o : Outcome τ α β) : Outcome σ α β :=
  ⟨o.events.map (Event.mapTime f), o.result.mapError (Fault.mapTime f)⟩

theorem Outcome.mapTime_id (o : Outcome τ α β) : o.mapTime id = o := by
  have hevent : (Event.mapTime id : Event τ α → Event τ α) = id := by
    funext event
    cases event <;> rfl
  have hfault : ∀ fault : Fault τ, fault.mapTime id = fault := by
    intro fault
    cases fault <;> rfl
  obtain ⟨events, result⟩ := o
  cases result <;> simp [mapTime, hevent, hfault, Except.mapError]

/-- Only the result that is reached matters. -/
theorem Outcome.map_congr {o : Outcome τ α β} {f g : β → γ}
    (h : ∀ value, o.result = .ok value → f value = g value) : o.map f = o.map g := by
  obtain ⟨events, fault | value⟩ := o
  · rfl
  · have hvalue := h value rfl
    exact congrArg (fun v => (⟨events, .ok v⟩ : Outcome τ α γ)) hvalue

/-- The end of the corresponding attempt. -/
def Interpolation.Attempt.map (f : τ → σ) (knot : Interpolation.Knot α → Interpolation.Knot α) :
    Interpolation.Attempt τ α → Interpolation.Attempt σ α
  | accepted knots => accepted (knots.map knot)
  | tooClose time scalarPart => tooClose (f time) scalarPart

namespace Interpolation

/-- Another description of motions at instants. -/
structure Reading (α : Type) where
  instant : α → α
  /-- How fast new instants pass. -/
  pace : α
  motion : Coordinates α → Coordinates α
  rate : Vec3 α → Vec3 α
  knot : Knot α → Knot α

namespace Reading

variable {α : Type} (S : Reading α)

def point (c : Stamped α (Coordinates α)) : Stamped α (Coordinates α) :=
  ⟨S.instant c.time, S.motion c.motion⟩

def residual [Mul α] (r : Residual α α) : Residual α α :=
  ⟨S.instant r.time, S.pace * r.abscissa, S.motion r.motion⟩

def settled (s : Settled (Stamped α (Coordinates α)) α) : Settled (Stamped α (Coordinates α)) α :=
  ⟨S.point s.offset, s.knots.map S.knot⟩

end Reading

/-- The description commutes with the steps of interpolation. -/
structure Symmetry (ε : ℝ) (trust : Trust) (S : Reading ℝ) : Prop where
  instant_sub : ∀ t s, S.instant t - S.instant s = S.pace * (t - s)
  w_motion : ∀ m, (S.motion m).rotation.w = m.rotation.w
  dot_motion : ∀ a b, (S.motion a).rotation.dot (S.motion b).rotation = a.rotation.dot b.rotation
  rate_motion : ∀ m, (S.motion m).rate = S.rate m.rate
  motion_start : ∀ v, S.motion ⟨⟨1, 0⟩, v, 0⟩ = ⟨⟨1, 0⟩, S.rate v, 0⟩
  motion_addOffset : ∀ a b, S.motion (a.addOffset b) = (S.motion a).addOffset (S.motion b)
  motion_revert : ∀ m, S.motion m.revert = (S.motion m).revert
  motion_shiftedBy : ∀ m dt,
    S.motion (m.shiftedBy (.exact ε) dt) = (S.motion m).shiftedBy (.exact ε) (S.pace * dt)
  rate_mean : ∀ rates, S.rate (Vec3.mean rates) = Vec3.mean (rates.map S.rate)
  rate_estimateRate : ∀ a b dt,
    S.rate (Coordinates.estimateRate (.exact ε) a.rotation b.rotation dt)
      = Coordinates.estimateRate (.exact ε) (S.motion a).rotation (S.motion b).rotation (S.pace * dt)
  knot_knotOf : ∀ sign (r : Residual ℝ ℝ),
    S.knot (knotOf trust sign r) = knotOf trust sign (S.residual r)
  motion_curve : ∀ knots : List (Knot ℝ), (knots.map (·.abscissa)).Nodup →
    S.motion (curve (.exact ε) knots 0) = curve (.exact ε) (knots.map S.knot) 0

namespace Symmetry

variable {ε time : ℝ} {trust : Trust} {S : Reading ℝ} (hS : Symmetry ε trust S)

include hS

/-! ## Attempts -/

theorem remainder_eq (offset : Coordinates ℝ) (c : Stamped ℝ (Coordinates ℝ)) :
    remainder (.exact ε) (S.instant time) (S.motion offset) (S.point c)
      = S.residual (remainder (.exact ε) time offset c) := by
  simp only [remainder, Reading.residual, Reading.point, hS.instant_sub, Coordinates.subtractOffset,
    hS.motion_addOffset, hS.motion_revert, hS.motion_shiftedBy]

theorem signAfter_eq (sign : ℝ) (previous m : Coordinates ℝ) :
    signAfter sign (S.motion previous).rotation (S.motion m).rotation
      = signAfter sign previous.rotation m.rotation := by
  rw [signAfter, signAfter, hS.dot_motion]

theorem attemptFrom_eq (threshold sign : ℝ) (previous : Coordinates ℝ) (rs : List (Residual ℝ ℝ)) :
    attemptFrom (.exact ε) trust threshold sign (S.motion previous).rotation
        ((rs.map S.residual).map .ok)
      = (attemptFrom (.exact ε) trust threshold sign previous.rotation (rs.map .ok)).map
        (Attempt.map S.instant S.knot) := by
  induction rs generalizing sign previous with
  | nil => rfl
  | cons r rs ih =>
    have hmotion : (S.residual r).motion = S.motion r.motion := rfl
    have hknot : ∀ selected, knotOf trust selected (S.residual r)
        = S.knot (knotOf trust selected r) := fun selected => (hS.knot_knotOf selected r).symm
    rw [List.map_cons, List.map_cons, List.map_cons, attemptFrom_cons, attemptFrom_cons, hmotion,
      hS.signAfter_eq, hS.w_motion, hknot, ih]
    split
    · rfl
    · match attemptFrom (.exact ε) trust threshold
          (signAfter sign previous.rotation r.motion.rotation) r.motion.rotation (rs.map .ok) with
      | .error fault => rfl
      | .ok (.accepted knots) => rfl
      | .ok (.tooClose instant scalarPart) => rfl

variable (sample : List (Stamped ℝ (Coordinates ℝ)))

/-- An attempt on the new description ends as the one on the old description. -/
theorem attemptAt_eq (time : ℝ) (offset : Stamped ℝ (Coordinates ℝ)) :
    attemptAt (.exact ε) trust (S.instant time) (sample.map S.point) (S.point offset)
      = (attemptAt (.exact ε) trust time sample offset).map (Attempt.map S.instant S.knot) := by
  have hidentity : (S.motion ⟨⟨1, 0⟩, 0, 0⟩).rotation = ⟨1, 0⟩ := by rw [hS.motion_start]
  have hremainders : (sample.map S.point).map
        (remainder (.exact ε) (S.instant time) (S.point offset).motion)
      = (sample.map (remainder (.exact ε) time offset.motion)).map S.residual := by
    rw [List.map_map, List.map_map]
    apply List.map_congr_left
    intro c _
    exact hS.remainder_eq offset.motion c
  have hattempt := hS.attemptFrom_eq (singularityThreshold (sample.length : ℝ)) 1 ⟨⟨1, 0⟩, 0, 0⟩
    (sample.map (remainder (.exact ε) time offset.motion))
  rw [hidentity, ← hremainders] at hattempt
  rw [attemptAt, attemptAt, attempt, attempt, attemptOn, attemptOn, residuals_exact,
    residuals_exact, Quaternion.identity_exact, List.length_map]
  exact hattempt

/-! ## The first offset -/

theorem rateBetween_eq (a b : Stamped ℝ (Coordinates ℝ)) :
    rateBetween (.exact ε) (S.point a, S.point b) = S.rate (rateBetween (.exact ε) (a, b)) := by
  rw [rateBetween, rateBetween, hS.rate_estimateRate a.motion b.motion, Reading.point,
    Reading.point, hS.instant_sub]

theorem meanRate_eq :
    meanRate (.exact ε) trust (sample.map S.point)
      = (meanRate (.exact ε) trust sample).map S.rate := by
  have hrates : (sample.map S.point).map (·.motion.rate)
      = (sample.map (·.motion.rate)).map S.rate := by
    simp only [List.map_map, Function.comp_def, Reading.point, hS.rate_motion]
  have hestimates : ((sample.map S.point).zip (sample.map S.point).tail).map
        (rateBetween (.exact ε))
      = ((sample.zip sample.tail).map (rateBetween (.exact ε))).map S.rate := by
    rw [← List.map_tail, List.zip_map, List.map_map, List.map_map]
    apply List.map_congr_left
    rintro ⟨a, b⟩ _
    exact hS.rateBetween_eq a b
  rw [Interpolation.meanRate_eq, Interpolation.meanRate_eq, hrates, hestimates, ← hS.rate_mean,
    ← hS.rate_mean, List.isEmpty_map, List.length_map]
  split
  · rfl
  · split
    · rfl
    · split <;> rfl

theorem point_offsetOf_zero (rate : Vec3 ℝ) :
    S.point (offsetOf time 0 rate) = offsetOf (S.instant time) 0 (S.rate rate) := by
  rw [Reading.point, offsetOf, offsetOf, Quaternion.turned_zero, hS.motion_start]

theorem firstOffset_eq (time : ℝ) :
    firstOffset (.exact ε) trust (S.instant time) (sample.map S.point)
      = (firstOffset (.exact ε) trust time sample).map S.point := by
  rw [Interpolation.firstOffset_eq, Interpolation.firstOffset_eq, hS.meanRate_eq]
  cases meanRate (.exact ε) trust sample with
  | error fault => rfl
  | ok rate => exact congrArg Except.ok (hS.point_offsetOf_zero rate).symm

/-! ## Searches -/

variable {sample}

theorem restart_eq {size : Nat}
    (hturn : S.motion (restartTurn (.exact ε) size) = restartTurn (.exact ε) size)
    (offset : Stamped ℝ (Coordinates ℝ)) :
    restart (.exact ε) size (S.point offset) = S.point (restart (.exact ε) size offset) := by
  rw [restart, restart, Stamped.addOffset, Stamped.addOffset, Reading.point, Reading.point,
    hS.motion_addOffset, hturn]

/-- Searches on both descriptions go through the same restarts. -/
theorem searchFrom_eq
    (hturn : S.motion (restartTurn (.exact ε) sample.length) = restartTurn (.exact ε) sample.length)
    (left index : Nat) (offset : Stamped ℝ (Coordinates ℝ)) :
    searchFrom (.exact ε) trust (S.instant time) (sample.map S.point) left index (S.point offset)
      = ((searchFrom (.exact ε) trust time sample left index offset).map S.settled).mapTime
        S.instant := by
  have hlength : (sample.map S.point).length = sample.length := List.length_map _
  induction left generalizing index offset with
  | zero =>
    rw [searchFrom, searchFrom, search, search]
    simp only [reduction, hlength]
    rfl
  | succ left ih =>
    have hattempt := hS.attemptAt_eq sample time offset
    rcases attemptAt_total ε time trust sample offset with
      ⟨knots, haccepted⟩ | ⟨c, _, _, scalarPart, hrefused⟩
    · rw [haccepted] at hattempt
      rw [searchFrom_accepted haccepted, searchFrom_accepted hattempt]
      rfl
    · rw [hrefused] at hattempt
      rw [searchFrom_refused hrefused, searchFrom_refused hattempt, hlength,
        hS.restart_eq hturn, ih]
      rfl

theorem settle_eq
    (hturn : S.motion (restartTurn (.exact ε) sample.length) = restartTurn (.exact ε) sample.length) :
    settle (.exact ε) trust (S.instant time) (sample.map S.point)
      = ((settle (.exact ε) trust time sample).map S.settled).mapTime S.instant := by
  by_cases hfew : TooFew trust sample
  · rcases hfew with rfl | ⟨rfl, hsingle⟩
    · rfl
    · have hsingle' : (sample.map S.point).length = 1 := (List.length_map _).trans hsingle
      rw [settle_single ε _ hsingle, settle_single ε _ hsingle']
      rfl
  · obtain ⟨rate, hrate⟩ := firstOffset_exact ε time trust hfew
    have hfirst := hS.firstOffset_eq sample time
    rw [hrate] at hfirst
    change _ = Except.ok (S.point (offsetOf time 0 rate)) at hfirst
    rw [settle_of_firstOffset ε time hrate, ← hS.searchFrom_eq hturn]
    rw [hS.point_offsetOf_zero] at hfirst ⊢
    rw [settle_of_firstOffset ε _ hfirst, List.length_map]

/-! ## Interpolation -/

/-- What settles on both descriptions describes one motion. -/
theorem interpolate_of_settle (hnodup : (sample.map (·.time)).Nodup)
    (hsettle : settle (.exact ε) trust (S.instant time) (sample.map S.point)
      = ((settle (.exact ε) trust time sample).map S.settled).mapTime S.instant) :
    interpolate (.exact ε) trust (S.instant time) (sample.map S.point)
      = ((interpolate (.exact ε) trust time sample).map S.point).mapTime S.instant := by
  rw [interpolate, interpolate, hsettle]
  rcases hresult : settle (.exact ε) trust time sample with ⟨events, fault | s⟩
  · rfl
  · have hok : (settle (.exact ε) trust time sample).result = .ok s := by rw [hresult]
    obtain ⟨_, haccepted, _⟩ := settle_ok ε time hok
    have hcurve := hS.motion_curve s.knots (nodup_abscissa_of_accepted ε time hnodup haccepted)
    have hmotion : (curve (.exact ε) (s.knots.map S.knot) 0).addOffset (S.motion s.offset.motion)
        = S.motion ((curve (.exact ε) s.knots 0).addOffset s.offset.motion) := by
      rw [hS.motion_addOffset, hcurve]
    exact congrArg (fun m => (⟨events.map (Event.mapTime S.instant), .ok ⟨S.instant time, m⟩⟩
      : Outcome ℝ ℝ (Stamped ℝ (Coordinates ℝ)))) hmotion

/-- A symmetry that leaves restarts as they are carries outcomes along. -/
theorem interpolate_eq (hnodup : (sample.map (·.time)).Nodup)
    (hturn : S.motion (restartTurn (.exact ε) sample.length) = restartTurn (.exact ε) sample.length) :
    interpolate (.exact ε) trust (S.instant time) (sample.map S.point)
      = ((interpolate (.exact ε) trust time sample).map S.point).mapTime S.instant :=
  hS.interpolate_of_settle hnodup (hS.settle_eq hturn)

/-- If the first attempt is accepted, no restart matters. -/
theorem interpolate_eq_of_accepted (hnodup : (sample.map (·.time)).Nodup)
    {first : Stamped ℝ (Coordinates ℝ)} {knots : List (Knot ℝ)}
    (hfirst : firstOffset (.exact ε) trust time sample = .ok first)
    (haccepted : attemptAt (.exact ε) trust time sample first = .ok (.accepted knots)) :
    interpolate (.exact ε) trust (S.instant time) (sample.map S.point)
      = ((interpolate (.exact ε) trust time sample).map S.point).mapTime S.instant := by
  refine hS.interpolate_of_settle hnodup ?_
  have hfirst' := hS.firstOffset_eq sample time
  have haccepted' := hS.attemptAt_eq sample time first
  rw [hfirst] at hfirst'
  rw [haccepted] at haccepted'
  rw [settle_of_accepted ε time hfirst haccepted, settle_of_accepted ε _ hfirst' haccepted']
  rfl

end Symmetry

end Interpolation

end AngularMotion
