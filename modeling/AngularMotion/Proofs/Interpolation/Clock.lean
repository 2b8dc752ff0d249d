import AngularMotion.Proofs.Coordinates.Clock
import AngularMotion.Proofs.Interpolation.Symmetry
import AngularMotion.Proofs.Interpolation.Trusted

/-!
# Interpolation by other clocks

A clock that starts elsewhere and counts in another unit is a symmetry of interpolation
(`symmetry_clock`): the rows of knots are divided by powers of its pace, and the polynomials through
them are those of the first clock, in a stretched variable (`component_onClock`).

* `interpolate_onClock`: by the other clock a sample is interpolated by the same motion, after the
  same restarts.
-/

namespace AngularMotion

/-- A motion at an instant, by a clock of another pace that shows `start` at the instant zero. -/
def Stamped.onClock {α : Type} [Add α] [Mul α] [Div α] (pace start : α)
    (point : Stamped α (Coordinates α)) : Stamped α (Coordinates α) :=
  ⟨pace * point.time + start, point.motion.onClock pace⟩

/-- A knot by a clock of another pace: each row is divided once more than the one before. -/
def Interpolation.Knot.onClock {α : Type} [DivInvMonoid α] (pace : α) (k : Interpolation.Knot α) :
    Interpolation.Knot α :=
  ⟨pace * k.abscissa, k.rows.mapIdx fun j row => row / pace ^ j⟩

/-- The description by a clock of another pace that shows `start` at the instant zero. -/
def Interpolation.Reading.clock {α : Type} [Add α] [DivInvMonoid α] (pace start : α) :
    Interpolation.Reading α where
  instant t := pace * t + start
  pace := pace
  motion := Coordinates.onClock pace
  rate v := v / pace
  knot := Interpolation.Knot.onClock pace

namespace Interpolation

open Polynomial

variable {ε time pace : ℝ} {trust : Trust} {knots : List (Knot ℝ)}

/-! ## The curve -/

/-- In a stretched variable each derivative has one more factor. -/
theorem iterate_derivative_stretched (P : ℝ[X]) (a : ℝ) (j : Nat) :
    derivative^[j] (P.comp (C a * X)) = C (a ^ j) * (derivative^[j] P).comp (C a * X) := by
  induction j with
  | zero => simp
  | succ j ih =>
    rw [Function.iterate_succ_apply', ih, Function.iterate_succ_apply', derivative_C_mul,
      derivative_comp, derivative_C_mul, derivative_X, pow_succ, C_mul]
    ring

theorem degree_stretched_lt {P : ℝ[X]} {n : Nat} (hdegree : P.degree < n) (a : ℝ) :
    (P.comp (C a * X)).degree < n := by
  rw [degree_lt_iff_coeff_zero] at hdegree ⊢
  intro i hi
  rw [comp_C_mul_X_coeff, hdegree i hi, zero_mul]

theorem eval_stretched (P : ℝ[X]) (a : ℝ) (j : Nat) (x : ℝ) :
    (derivative^[j] (P.comp (C a * X))).eval x = a ^ j * (derivative^[j] P).eval (a * x) := by
  simp [iterate_derivative_stretched]

theorem abscissae_onClock (knots : List (Knot ℝ)) :
    (knots.map (Knot.onClock pace)).map (·.abscissa)
      = (knots.map (·.abscissa)).map (pace * ·) := by
  simp only [List.map_map, Function.comp_def, Knot.onClock]

/-- By another clock a component is the same polynomial, in a stretched variable. -/
theorem component_onClock (hpace : pace ≠ 0) (hnodup : (knots.map (·.abscissa)).Nodup)
    {part : Vec3 ℝ → ℝ} (hpart : ∀ u (k : ℝ), part (u / k) = part u / k) :
    component part (knots.map (Knot.onClock pace))
      = (component part knots).comp (C pace⁻¹ * X) := by
  have hdistinct : ((knots.map (Knot.onClock pace)).map (·.abscissa)).Nodup := by
    rw [abscissae_onClock]
    exact hnodup.map (mul_right_injective₀ hpace)
  have hcount : ((knots.map (Knot.onClock pace)).map (·.rows.length)).sum
      = (knots.map (·.rows.length)).sum := by
    simp only [List.map_map, Function.comp_def, Knot.onClock, List.length_mapIdx]
  refine component_unique hdistinct ?_ ?_
  · rw [hcount]
    exact degree_stretched_lt (degree_component_lt part hnodup) pace⁻¹
  · intro k' hk' j hj
    obtain ⟨k, hk, rfl⟩ := List.mem_map.mp hk'
    have hrow : j < k.rows.length := by simpa [Knot.onClock] using hj
    have habscissa : pace⁻¹ * (k.onClock pace).abscissa = k.abscissa :=
      inv_mul_cancel_left₀ hpace k.abscissa
    rw [eval_stretched, habscissa, eval_component part hnodup hk hrow]
    simp only [Knot.onClock, List.getElem_mapIdx, hpart, inv_pow]
    exact inv_mul_eq_div _ _

theorem track_onClock (hpace : pace ≠ 0) (hnodup : (knots.map (·.abscissa)).Nodup) (p : Nat) :
    track (knots.map (Knot.onClock pace)) p 0 = track knots p 0 / pace ^ p := by
  have hpart : ∀ part : Vec3 ℝ → ℝ, (∀ u (k : ℝ), part (u / k) = part u / k) →
      (derivative^[p] (component part (knots.map (Knot.onClock pace)))).eval 0
        = (derivative^[p] (component part knots)).eval 0 / pace ^ p := by
    intro part hdiv
    rw [component_onClock hpace hnodup hdiv, eval_stretched, mul_zero, inv_pow, inv_mul_eq_div]
  exact Vec3.ext (hpart _ fun _ _ => rfl) (hpart _ fun _ _ => rfl) (hpart _ fun _ _ => rfl)

theorem curve_onClock (hpace : pace ≠ 0) (hnodup : (knots.map (·.abscissa)).Nodup) :
    curve (.exact ε) (knots.map (Knot.onClock pace)) 0
      = (curve (.exact ε) knots 0).onClock pace := by
  have hrows : (⟨track (knots.map (Knot.onClock pace)) 0 0,
      track (knots.map (Knot.onClock pace)) 1 0, track (knots.map (Knot.onClock pace)) 2 0⟩
        : Rodrigues ℝ)
      = Rodrigues.onClock pace ⟨track knots 0 0, track knots 1 0, track knots 2 0⟩ := by
    rw [track_onClock hpace hnodup, track_onClock hpace hnodup, track_onClock hpace hnodup]
    ext <;> simp [Rodrigues.onClock, pow_two]
  rw [curve_eq, curve_eq, hrows, Rodrigues.decode_onClock]

theorem knotOf_onClock (sign : ℝ) (r : Residual ℝ ℝ) (instant : ℝ) :
    (knotOf trust sign r).onClock pace
      = knotOf trust sign ⟨instant, pace * r.abscissa, r.motion.onClock pace⟩ := by
  have hone : ∀ u : Vec3 ℝ, u / (1 : ℝ) = u := by
    intro u
    ext <;> simp
  rw [knotOf, knotOf, Rodrigues.encode_onClock]
  cases trust <;>
    simp [Knot.onClock, Rodrigues.rows, Rodrigues.onClock, Trust.maxOrder, hone, pow_two]

/-! ## Clocks as symmetries -/

theorem symmetry_clock (ε : ℝ) (trust : Trust) (hpace : pace ≠ 0) (start : ℝ) :
    Symmetry ε trust (.clock pace start) where
  instant_sub t s := by
    change pace * t + start - (pace * s + start) = pace * (t - s)
    ring
  w_motion _ := rfl
  dot_motion _ _ := rfl
  rate_motion _ := rfl
  motion_start v := by
    change Coordinates.onClock pace ⟨⟨1, 0⟩, v, 0⟩ = ⟨⟨1, 0⟩, v / pace, 0⟩
    rw [Coordinates.onClock, Vec3.zero_div]
  motion_addOffset a b := (a.addOffset_onClock b).symm
  motion_revert m := m.revert_onClock.symm
  motion_shiftedBy m dt := (m.shiftedBy_onClock ε hpace dt).symm
  rate_mean rates := by
    refine (Vec3.mean_map (f := (· / pace)) ?_ ?_ rates).symm
    · intro u v
      ext <;> simp [add_div]
    · intro k u
      ext <;> simp [mul_div_assoc]
  rate_estimateRate a b dt :=
    (Coordinates.estimateRate_onClock ε a.rotation b.rotation dt).symm
  knot_knotOf sign r := knotOf_onClock sign r _
  motion_curve _ hnodup := (curve_onClock hpace hnodup).symm

/-! ## Interpolation -/

variable {sample : List (Stamped ℝ (Coordinates ℝ))}

/-- By a clock that starts elsewhere and counts in another unit, forwards or backwards, a sample is
interpolated by the same motion, with the same events. -/
theorem interpolate_onClock (hpace : pace ≠ 0) (start : ℝ) (hnodup : (sample.map (·.time)).Nodup) :
    interpolate (.exact ε) trust (pace * time + start) (sample.map (Stamped.onClock pace start))
      = ((interpolate (.exact ε) trust time sample).map
          (Stamped.onClock pace start)).mapTime fun t => pace * t + start := by
  have hturn : (restartTurn (.exact ε) sample.length).onClock pace
      = restartTurn (.exact ε) sample.length := by
    rw [restartTurn_exact, Coordinates.onClock, Vec3.zero_div, Vec3.zero_div]
  exact (symmetry_clock ε trust hpace start).interpolate_eq hnodup hturn

/-- A tilt by a clock that runs backwards, twice as fast. -/
theorem interpolate_tilting_onClock :
    interpolate (.exact 0) .acceleration (-2 * (1 / 2) + 3)
        ((tilting ⟨5, 0, 0⟩ ⟨0, 1, 0⟩).map (Stamped.onClock (-2) 3))
      = ((interpolate (.exact 0) .acceleration (1 / 2) (tilting ⟨5, 0, 0⟩ ⟨0, 1, 0⟩)).map
          (Stamped.onClock (-2) 3)).mapTime fun t => -2 * t + 3 := by
  have hpace : (-2 : ℝ) ≠ 0 := by norm_num
  exact interpolate_onClock hpace 3 (by simp [tilting])

end Interpolation

end AngularMotion
