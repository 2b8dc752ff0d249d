import AngularMotion.Proofs.Guarded.Hermite
import AngularMotion.Proofs.Guarded.Motion
import AngularMotion.Proofs.Interpolation.Avoidance
import AngularMotion.Proofs.Interpolation.Curve

/-!
# Interpolation of guarded numbers

A search of guarded numbers goes through the same restarts as that of the real ones and settles with
the same knots, as the threshold keeps all encoded residuals away from the singularity
(`settle_guarded`). At distinct instants the whole interpolation gives the same
(`interpolate_guarded`): it divides by zero nowhere.
-/

namespace AngularMotion

open Guarded

/-- The motion of guarded numbers at its instant. -/
def Stamped.guarded (c : Stamped ℝ (Coordinates ℝ)) : Stamped Guarded (Coordinates Guarded) :=
  ⟨number c.time, c.motion.guarded⟩

namespace Interpolation

def Residual.guarded (r : Residual ℝ ℝ) : Residual Guarded Guarded :=
  ⟨number r.time, number r.abscissa, r.motion.guarded⟩

def Knot.guarded (k : Knot ℝ) : Knot Guarded := ⟨number k.abscissa, k.rows.map Vec3.guarded⟩

def Attempt.guarded : Attempt ℝ ℝ → Attempt Guarded Guarded
  | accepted knots => accepted (knots.map Knot.guarded)
  | tooClose time scalarPart => tooClose (number time) (number scalarPart)

def Settled.guarded (s : Settled (Stamped ℝ (Coordinates ℝ)) ℝ) :
    Settled (Stamped Guarded (Coordinates Guarded)) Guarded :=
  ⟨s.offset.guarded, s.knots.map Knot.guarded⟩

variable {ε time : ℝ} {trust : Trust} {sample : List (Stamped ℝ (Coordinates ℝ))}

/-! ## Thresholds and restarts -/

theorem restartAngle_guarded {n : Nat} (hn : 0 < n) :
    restartAngle (n : Guarded) = number (restartAngle (n : ℝ)) :=
  number_div (by exact_mod_cast hn.ne')

theorem singularityThreshold_guarded {n : Nat} (hn : 0 < n) :
    singularityThreshold (n : Guarded) = number (singularityThreshold (n : ℝ)) := by
  have hquarter : number (restartAngle (n : ℝ)) / (4 : Guarded)
      = number (restartAngle (n : ℝ) / 4) := number_div four_ne_zero
  let margin : ℝ := -(1 - 1e-4)
  let edge : ℝ := -Elementary.cos (restartAngle (n : ℝ) / 4)
  have hchoice : (if number edge < number margin then number edge else number margin)
      = number (if edge < margin then edge else margin) :=
    (apply_ite number _ _ _).symm
  rw [singularityThreshold, restartAngle_guarded hn, hquarter]
  exact hchoice

theorem restartTurn_guarded {n : Nat} (hn : 0 < n) :
    restartTurn (.exact (number ε)) n = (restartTurn (.exact ε) n).guarded := by
  have haxis : (⟨1, 0, 0⟩ : Vec3 ℝ) ≠ 0 := fun h => one_ne_zero (congrArg Vec3.x h)
  have hturn := Quaternion.turn_guarded haxis (restartAngle (n : ℝ))
  rw [← restartAngle_guarded hn] at hturn
  exact Coordinates.ext hturn rfl rfl

theorem restart_guarded {n : Nat} (hn : 0 < n) {offset : Stamped ℝ (Coordinates ℝ)}
    (hoffset : offset.motion.rotation.Normalized) :
    restart (.exact (number ε)) n offset.guarded = (restart (.exact ε) n offset).guarded := by
  have hturn : (restartTurn (.exact ε) n).rotation.Normalized := by
    rw [restartTurn_exact]
    exact Quaternion.normalized_turned _
  have hmotion := Coordinates.addOffset_guarded hoffset hturn
  rw [← restartTurn_guarded hn] at hmotion
  exact congrArg (Stamped.mk (number offset.time)) hmotion

/-! ## Attempts -/

theorem remainder_guarded {offset : Coordinates ℝ} (hoffset : offset.rotation.Normalized)
    {point : Stamped ℝ (Coordinates ℝ)} (hpoint : point.motion.rotation.Normalized) :
    remainder (.exact (number ε)) (number time) offset.guarded point.guarded
      = (remainder (.exact ε) time offset point).guarded := by
  have hmodel : (offset.shiftedBy (.exact ε) (point.time - time)).rotation.Normalized :=
    (Quaternion.normalized_exp _).compose hoffset
  have hmotion := Coordinates.subtractOffset_guarded hpoint hmodel
  rw [← Coordinates.shiftedBy_guarded ε hoffset] at hmotion
  exact congrArg (Residual.mk (number point.time) (number (point.time - time))) hmotion

theorem residuals_guarded {offset : Stamped ℝ (Coordinates ℝ)}
    (hoffset : offset.motion.rotation.Normalized)
    (hsample : ∀ point ∈ sample, point.motion.rotation.Normalized) :
    residuals (.exact (number ε)) (number time) (sample.map Stamped.guarded) offset.guarded
      = ((sample.map (remainder (.exact ε) time offset.motion)).map Residual.guarded).map .ok := by
  rw [residuals, List.map_map, List.map_map, List.map_map]
  apply List.map_congr_left
  intro point hpoint
  exact congrArg Except.ok (remainder_guarded hoffset (hsample point hpoint))

theorem knotOf_guarded {sign : ℝ} {r : Residual ℝ ℝ} (hw : 1 + sign * r.motion.rotation.w ≠ 0) :
    knotOf trust (number sign) r.guarded = (knotOf trust sign r).guarded := by
  have hrows : (Rodrigues.encode r.motion.guarded (number sign)).rows
      = (Rodrigues.encode r.motion sign).rows.map Vec3.guarded := by
    rw [Rodrigues.encode_guarded r.motion hw]
    rfl
  have htaken := congrArg (List.take (trust.maxOrder + 1)) hrows
  rw [← List.map_take] at htaken
  exact congrArg (Knot.mk (number r.abscissa)) htaken

/-- Residuals that a threshold keeps are away from the singularity. -/
theorem one_add_ne_zero_of_kept {threshold x : ℝ} (hthreshold : -1 < threshold)
    (hkept : ¬ x < threshold) : 1 + x ≠ 0 := by
  intro hzero
  linarith [not_lt.mp hkept]

theorem withKnot_guarded (knot : Knot ℝ) (attempt : Attempt ℝ ℝ) :
    withKnot knot.guarded attempt.guarded = (withKnot knot attempt).guarded := by
  cases attempt <;> rfl

/-- An attempt above a threshold keeps away from the singularity. -/
theorem attemptFrom_guarded {threshold : ℝ} (hthreshold : -1 < threshold) {sign : ℝ}
    {previous : Quaternion ℝ} {rs : List (Residual ℝ ℝ)} {attempt : Attempt ℝ ℝ}
    (h : attemptFrom (.exact ε) trust threshold sign previous (rs.map .ok) = .ok attempt) :
    attemptFrom (.exact (number ε)) trust (number threshold) (number sign) previous.guarded
      ((rs.map Residual.guarded).map .ok) = .ok attempt.guarded := by
  induction rs generalizing sign previous attempt with
  | nil =>
    cases h
    rfl
  | cons r rs ih =>
    rw [List.map_cons, attemptFrom_cons] at h
    rw [List.map_cons, List.map_cons, attemptFrom_cons_of_plain (fun _ => rfl) (fun _ => rfl)]
    have hsign : signAfter (number sign) previous.guarded r.guarded.motion.rotation
        = number (signAfter sign previous r.motion.rotation) := rfl
    split at h
    · rename_i hclose
      cases h
      exact if_pos hclose
    · rename_i hkept
      match hrest : attemptFrom (.exact ε) trust threshold
          (signAfter sign previous r.motion.rotation) r.motion.rotation (rs.map .ok) with
      | .error fault =>
        rw [hrest] at h
        cases h
      | .ok others =>
        rw [hrest] at h
        cases h
        have hw := one_add_ne_zero_of_kept hthreshold hkept
        rw [mul_comm] at hw
        refine (if_neg hkept).trans ?_
        rw [hsign, knotOf_guarded hw, ← withKnot_guarded]
        exact congrArg _ (ih hrest)

theorem attemptAt_guarded (hne : sample ≠ [])
    (hsample : ∀ point ∈ sample, point.motion.rotation.Normalized)
    {offset : Stamped ℝ (Coordinates ℝ)} (hoffset : offset.motion.rotation.Normalized)
    {attempt : Attempt ℝ ℝ} (h : attemptAt (.exact ε) trust time sample offset = .ok attempt) :
    attemptAt (.exact (number ε)) trust (number time) (sample.map Stamped.guarded) offset.guarded
      = .ok attempt.guarded := by
  have hcount := List.length_pos_iff.mpr hne
  rw [attemptAt, Interpolation.attempt, attemptOn, residuals_exact] at h
  rw [attemptAt, Interpolation.attempt, attemptOn, residuals_guarded hoffset hsample,
    List.length_map, singularityThreshold_guarded hcount]
  exact attemptFrom_guarded (neg_one_lt_singularityThreshold hcount) h

/-! ## Searches -/

theorem searchFrom_guarded (hne : sample ≠ [])
    (hsample : ∀ point ∈ sample, point.motion.rotation.Normalized) {left index : Nat}
    {offset : Stamped ℝ (Coordinates ℝ)} (hoffset : offset.motion.rotation.Normalized)
    {s : Settled (Stamped ℝ (Coordinates ℝ)) ℝ}
    (h : (searchFrom (.exact ε) trust time sample left index offset).result = .ok s) :
    (searchFrom (.exact (number ε)) trust (number time) (sample.map Stamped.guarded) left index
      offset.guarded).result = .ok s.guarded := by
  have hcount := List.length_pos_iff.mpr hne
  induction left generalizing index offset with
  | zero => cases h
  | succ left ih =>
    have hrestart : (restart (.exact ε) sample.length offset).motion.rotation.Normalized := by
      rw [restart, restartTurn_exact]
      exact hoffset.compose (Quaternion.normalized_turned _)
    rcases attemptAt_total ε time trust sample offset with
      ⟨knots, haccepted⟩ | ⟨_, _, _, _, hrefused⟩
    · rw [searchFrom_accepted haccepted] at h
      cases h
      rw [searchFrom_accepted (attemptAt_guarded hne hsample hoffset haccepted)]
      rfl
    · rw [searchFrom_refused hrefused] at h
      rw [searchFrom_refused (attemptAt_guarded hne hsample hoffset hrefused), List.length_map,
        restart_guarded hcount hoffset]
      exact ih hrestart h

/-! ## The first offset -/

theorem rateBetween_guarded {a b : Stamped ℝ (Coordinates ℝ)} (ha : a.motion.rotation.Normalized)
    (hb : b.motion.rotation.Normalized) (hne : b.time - a.time ≠ 0) :
    rateBetween (.exact (number ε)) (a.guarded, b.guarded)
      = (rateBetween (.exact ε) (a, b)).guarded :=
  Coordinates.estimateRate_guarded ε ha hb hne

/-- At distinct instants the rates between the points are estimated. -/
theorem rates_guarded (hsample : ∀ point ∈ sample, point.motion.rotation.Normalized)
    (hnodup : (sample.map (·.time)).Nodup) :
    ((sample.map Stamped.guarded).zip (sample.map Stamped.guarded).tail).map
        (rateBetween (.exact (number ε)))
      = ((sample.zip sample.tail).map (rateBetween (.exact ε))).map Vec3.guarded := by
  rw [← List.map_tail, List.zip_map, List.map_map, List.map_map]
  apply List.map_congr_left
  rintro ⟨a, b⟩ hpair
  have hinstants : (a.time, b.time) ∈ (sample.map (·.time)).zip (sample.map (·.time)).tail := by
    rw [← List.map_tail, List.zip_map]
    exact List.mem_map.mpr ⟨(a, b), hpair, rfl⟩
  obtain ⟨ha, hb⟩ := List.of_mem_zip hpair
  exact rateBetween_guarded (hsample a ha) (hsample b (List.mem_of_mem_tail hb))
    (sub_ne_zero_of_mem_zip_tail hnodup hinstants)

theorem meanRate_guarded (hsample : ∀ point ∈ sample, point.motion.rotation.Normalized)
    (hnodup : (sample.map (·.time)).Nodup) {rate : Vec3 ℝ}
    (h : meanRate (.exact ε) trust sample = .ok rate) :
    meanRate (.exact (number ε)) trust (sample.map Stamped.guarded) = .ok rate.guarded := by
  rw [meanRate_eq] at h
  rw [meanRate_of_since (fun _ _ => rfl), List.isEmpty_map, List.length_map,
    rates_guarded hsample hnodup]
  split at h
  · cases h
  · rename_i hempty
    have hne : sample ≠ [] := by simpa using hempty
    rw [if_neg hempty]
    split at h
    · rename_i horder
      cases h
      have hrates : (sample.map Stamped.guarded).map (·.motion.rate)
          = (sample.map (·.motion.rate)).map Vec3.guarded := by
        rw [List.map_map, List.map_map]
        rfl
      rw [if_pos horder, hrates, Vec3.mean_guarded (by simpa using hne)]
    · rename_i horder
      rw [if_neg horder]
      split at h
      · cases h
      · rename_i hfew
        cases h
        have hpairs : (sample.zip sample.tail).map (rateBetween (.exact ε)) ≠ [] := by
          intro hnone
          have hlength := congrArg List.length hnone
          simp only [List.length_map, List.length_zip, List.length_tail, List.length_nil] at hlength
          omega
        rw [if_neg hfew, Vec3.mean_guarded hpairs]

theorem firstOffset_guarded (hsample : ∀ point ∈ sample, point.motion.rotation.Normalized)
    (hnodup : (sample.map (·.time)).Nodup) (hfew : ¬ TooFew trust sample) :
    ∃ rate, firstOffset (.exact ε) trust time sample = .ok (offsetOf time 0 rate)
      ∧ firstOffset (.exact (number ε)) trust (number time) (sample.map Stamped.guarded)
        = .ok (offsetOf time 0 rate).guarded := by
  obtain ⟨rate, hrate⟩ := meanRate_exact ε trust hfew
  have hoffset : offsetOf time 0 rate = ⟨time, ⟨1, 0⟩, rate, 0⟩ := by
    rw [offsetOf, Quaternion.turned_zero]
  refine ⟨rate, ?_, ?_⟩
  · rw [firstOffset_eq, hrate]
    rfl
  · rw [firstOffset, meanRate_guarded hsample hnodup hrate, hoffset]
    rfl

/-! ## Interpolation -/

theorem settle_guarded (hsample : ∀ point ∈ sample, point.motion.rotation.Normalized)
    (hnodup : (sample.map (·.time)).Nodup)
    {s : Settled (Stamped ℝ (Coordinates ℝ)) ℝ}
    (h : (settle (.exact ε) trust time sample).result = .ok s) :
    (settle (.exact (number ε)) trust (number time) (sample.map Stamped.guarded)).result
      = .ok s.guarded := by
  have hfew := not_tooFew_of_settle ε time h
  obtain ⟨rate, hfirst, hfirst'⟩ := firstOffset_guarded hsample hnodup hfew
  rw [settle_of_firstOffset ε time hfirst] at h
  have hsearch := searchFrom_guarded (not_or.mp hfew).1 hsample
    (Quaternion.normalized_turned 0) h
  rw [settle, hfirst']
  rw [← List.length_map Stamped.guarded] at hsearch
  exact hsearch

variable {knots : List (Knot ℝ)}

theorem curve_guarded (ε : ℝ) (hnodup : (knots.map (·.abscissa)).Nodup) (x : ℝ) :
    curve (.exact (number ε)) (knots.map Knot.guarded) (number x)
      = (curve (.exact ε) knots x).guarded := by
  have habscissae : (knots.map Knot.guarded).map (fun k => k.abscissa)
      = (knots.map fun k => k.abscissa).map number := by
    rw [List.map_map, List.map_map]
    rfl
  have hrows : (knots.map Knot.guarded).map
        (fun k => k.rows.map (·.map (Working.exact (number ε)).store))
      = (knots.map fun k => k.rows.map (·.map (Working.exact ε).store)).map
        (·.map Vec3.guarded) := by
    rw [List.map_map, List.map_map]
    apply List.map_congr_left
    intro k _
    change (k.rows.map Vec3.guarded).map _ = (k.rows.map _).map Vec3.guarded
    rw [List.map_map, List.map_map]
    rfl
  have hlength : (knots.map (·.abscissa)).length
      = (knots.map fun k => k.rows.map (·.map (Working.exact ε).store)).length := by
    rw [List.length_map, List.length_map]
  have hevaluate := Hermite.evaluateVec3_guarded hlength hnodup x 2
  have hrow (us : List (Vec3 ℝ)) (i : Nat) :
      (us.map Vec3.guarded).getD i 0 = (us.getD i 0).guarded := List.getD_map us 0 Vec3.guarded
  simp only [curve, Working.store_exact, habscissae, hrows, hevaluate, hrow]
  generalize Hermite.evaluateVec3 _ _ x 2 = rows
  exact Rodrigues.coordinates_guarded ε ⟨rows.getD 0 0, rows.getD 1 0, rows.getD 2 0⟩

/-- At distinct instants an interpolation divides by zero nowhere. -/
theorem interpolate_guarded (hsample : ∀ point ∈ sample, point.motion.rotation.Normalized)
    (hnodup : (sample.map (·.time)).Nodup) {result : Stamped ℝ (Coordinates ℝ)}
    (h : (interpolate (.exact ε) trust time sample).result = .ok result) :
    (interpolate (.exact (number ε)) trust (number time) (sample.map Stamped.guarded)).result
      = .ok result.guarded := by
  obtain ⟨s, hsettle, rfl⟩ := interpolate_ok ε time h
  obtain ⟨_, haccepted, _⟩ := settle_ok ε time hsettle
  obtain ⟨hoffset, _⟩ := settle_offset ε time hsettle
  have hcurve := curve_guarded ε (nodup_abscissa_of_accepted ε time hnodup haccepted) 0
  have hmotion := Coordinates.addOffset_guarded
    ((kinematic_curve ε s.knots).normalized 0) hoffset
  rw [← hcurve] at hmotion
  rw [interpolate, Outcome.map, settle_guarded hsample hnodup hsettle]
  exact congrArg (fun m => Except.ok (Stamped.mk (number time) m)) hmotion

end Interpolation

end AngularMotion
