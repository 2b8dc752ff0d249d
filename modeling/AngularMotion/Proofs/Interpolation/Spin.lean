import AngularMotion.Proofs.Interpolation.Search
import AngularMotion.Proofs.Quaternion.Exponential

/-!
# What an offset leaves of a spin

A spin is a motion at a constant rate from a given attitude on. The offset that is built for it
turns at the same rate, from the identity on, and acts before the spin. So it takes the spin away
exactly if the attitude leaves the axis of the spin as it is (`spin_rests_iff`). Otherwise the
residuals keep turning (`rate_remainder_spin`), and where the attitude turns the axis round they do
so twice as fast as the spin (`rate_remainder_spin_of_reversed`).
-/

namespace AngularMotion.Interpolation

section Definitions

variable {α : Type} [Elementary α] [Storable α] [Zero α] [One α] [Add α] [Sub α] [Mul α] [Neg α]
  [Div α] [OfNat α 2] [LT α] [DecidableLT α]

/-- A spin at an instant: the turn along `t • rate` after the attitude `start`. -/
def spinPoint (p : Working α) (start : Quaternion α) (rate : Vec3 α) (t : α) :
    Stamped α (Coordinates α) :=
  ⟨t, .build p (some ((Quaternion.ofRotationVector p (t • rate)).compose start)) (some rate) none⟩

end Definitions

/-- All residuals have the same rotation, and none of them turns. -/
def Rests (residuals : List (Except (Fault ℝ) (Residual ℝ ℝ))) : Prop :=
  ∃ rotation, ∀ found ∈ residuals, ∃ r, found = .ok r ∧ r.motion.rotation = rotation
    ∧ r.motion.rate = 0

variable (ε time : ℝ) {q : Quaternion ℝ} {rate : Vec3 ℝ} {trust : Trust} {instants : List ℝ}

theorem spinPoint_exact (q : Quaternion ℝ) (rate : Vec3 ℝ) (t : ℝ) :
    spinPoint (.exact ε) q rate t = ⟨t, (Quaternion.exp (t • rate)).compose q, rate, 0⟩ := rfl

/-! ## The offset -/

/-- The offset for a spin turns at the rate of the spin. -/
theorem firstOffset_spin (q : Quaternion ℝ) (rate : Vec3 ℝ) (htrust : 0 < trust.maxOrder)
    (hne : instants ≠ []) :
    firstOffset (.exact ε) trust time (instants.map (spinPoint (.exact ε) q rate))
      = .ok (offsetOf time 0 rate) := by
  have hmean : meanRate (.exact ε) trust (instants.map (spinPoint (.exact ε) q rate))
      = .ok rate := by
    have hrates : ((instants.map (spinPoint (.exact ε) q rate)).map (·.motion.rate))
        = List.replicate instants.length rate := by
      rw [List.map_map, List.eq_replicate_iff]
      exact ⟨by simp, by simp [spinPoint_exact]⟩
    rw [meanRate, if_neg (by simpa using hne), if_pos htrust, hrates,
      mean_replicate (List.length_pos_iff.mpr hne)]
  rw [firstOffset_eq, hmean]
  rfl

/-! ## The residuals -/

/-- The rotation that is left of a spin: the attitude, between the turn of the spin and that of the
offset back. -/
theorem rotation_remainder_spin (q : Quaternion ℝ) (rate : Vec3 ℝ) (t : ℝ) :
    (remainder (.exact ε) time (offsetOf time 0 rate).motion
        (spinPoint (.exact ε) q rate t)).motion.rotation
      = ((Quaternion.exp (t • rate)).compose q).compose (Quaternion.exp ((time - t) • rate)) := by
  rw [remainder, spinPoint_exact, shiftedBy_offsetOf_zero]
  simp only [Coordinates.subtractOffset, Coordinates.addOffset, Coordinates.revert,
    Quaternion.inverse_exp, neg_sub]

/-- The rate that is left of a spin: what the attitude takes away from the axis, turned along. -/
theorem rate_remainder_spin (hq : q.Normalized) (rate : Vec3 ℝ) (t : ℝ) :
    (remainder (.exact ε) time (offsetOf time 0 rate).motion
        (spinPoint (.exact ε) q rate t)).motion.rate
      = (Quaternion.exp (t • rate)).apply (rate - q.apply rate) := by
  have hturn := Quaternion.normalized_exp (t • rate)
  have hreverse : (Quaternion.exp ((t - time) • rate)).applyInverse (-rate) = -rate := by
    rw [← (Quaternion.normalized_exp _).apply_inverse, Quaternion.inverse_exp, Quaternion.apply_neg,
      Quaternion.exp_apply_self]
  rw [remainder, spinPoint_exact, shiftedBy_offsetOf_zero]
  simp only [Coordinates.subtractOffset, Coordinates.addOffset, Coordinates.revert, hreverse]
  rw [hturn.apply_compose hq, Quaternion.apply_neg, Quaternion.apply_neg, Quaternion.apply_sub,
    Quaternion.exp_apply_self]
  ext <;> simp [sub_eq_add_neg]

/-- Where the attitude turns the axis round, what is left turns twice as fast as the spin. -/
theorem rate_remainder_spin_of_reversed (hq : q.Normalized) (hreversed : q.apply rate = -rate)
    (t : ℝ) :
    (remainder (.exact ε) time (offsetOf time 0 rate).motion
        (spinPoint (.exact ε) q rate t)).motion.rate = (2 : ℝ) • rate := by
  rw [rate_remainder_spin ε time hq, hreversed, Quaternion.apply_sub, Quaternion.apply_neg,
    Quaternion.exp_apply_self]
  ext <;> simp <;> ring

/-- Nothing turns if the attitude leaves the axis of the spin as it is. -/
theorem rotation_remainder_spin_of_fixed (hq : q.Normalized) (hfixed : q.apply rate = rate)
    (t : ℝ) :
    (remainder (.exact ε) time (offsetOf time 0 rate).motion
        (spinPoint (.exact ε) q rate t)).motion.rotation
      = (Quaternion.exp (time • rate)).compose q := by
  rw [rotation_remainder_spin, Quaternion.compose_assoc,
    Quaternion.compose_exp_of_fixed _ hq hfixed, ← Quaternion.compose_assoc,
    Quaternion.exp_compose_exp, add_sub_cancel]

/-! ## Rest -/

theorem rests_map_ok (rs : List (Residual ℝ ℝ)) :
    Rests (rs.map .ok)
      ↔ ∃ rotation, ∀ r ∈ rs, r.motion.rotation = rotation ∧ r.motion.rate = 0 := by
  simp [Rests]

/-- Where the residuals of a spin rest, the attitude leaves the axis as it is. -/
theorem fixed_of_rests (hq : q.Normalized) (hne : instants ≠ [])
    (h : Rests (residuals (.exact ε) time (instants.map (spinPoint (.exact ε) q rate))
      (offsetOf time 0 rate))) : q.apply rate = rate := by
  rw [residuals_exact, rests_map_ok] at h
  obtain ⟨rotation, hall⟩ := h
  obtain ⟨t, ht⟩ := List.exists_mem_of_ne_nil _ hne
  obtain ⟨_, hrest⟩ := hall _ (List.mem_map_of_mem (List.mem_map_of_mem ht))
  rw [rate_remainder_spin ε time hq, (Quaternion.normalized_exp _).apply_eq_zero_iff,
    Vec3.sub_eq_zero_iff] at hrest
  exact hrest.symm

theorem rests_of_fixed (hq : q.Normalized) (hfixed : q.apply rate = rate) :
    Rests (residuals (.exact ε) time (instants.map (spinPoint (.exact ε) q rate))
      (offsetOf time 0 rate)) := by
  rw [residuals_exact, rests_map_ok]
  refine ⟨(Quaternion.exp (time • rate)).compose q, ?_⟩
  intro r hr
  obtain ⟨point, hpoint, rfl⟩ := List.mem_map.mp hr
  obtain ⟨t, _, rfl⟩ := List.mem_map.mp hpoint
  refine ⟨rotation_remainder_spin_of_fixed ε time hq hfixed t, ?_⟩
  rw [rate_remainder_spin ε time hq, (Quaternion.normalized_exp _).apply_eq_zero_iff,
    Vec3.sub_eq_zero_iff]
  exact hfixed.symm

/-- The offset that is built for a spin turns at its rate from the identity on. It leaves residuals
at rest exactly if the attitude that the spin starts from leaves the axis as it is. -/
theorem spin_rests_iff (hq : q.Normalized) (rate : Vec3 ℝ) (htrust : 0 < trust.maxOrder)
    (hne : instants ≠ []) :
    firstOffset (.exact ε) trust time (instants.map (spinPoint (.exact ε) q rate))
        = .ok ⟨time, ⟨.identity (.exact ε), rate, 0⟩⟩
      ∧ (Rests (residuals (.exact ε) time (instants.map (spinPoint (.exact ε) q rate))
          ⟨time, ⟨.identity (.exact ε), rate, 0⟩⟩) ↔ q.apply rate = rate) := by
  have hoffset : offsetOf time 0 rate = ⟨time, ⟨.identity (.exact ε), rate, 0⟩⟩ := by
    rw [offsetOf, Quaternion.turned_zero, Quaternion.identity_exact]
  rw [← hoffset]
  exact ⟨firstOffset_spin ε time q rate htrust hne,
    fixed_of_rests ε time hq hne, rests_of_fixed ε time hq⟩

/-- A spin about the axis of the tilt is taken away. -/
theorem spin_about_tilt_rests :
    Rests (residuals (.exact 0) 0 ([0, 1].map (spinPoint (.exact 0) .tilt ⟨1, 0, 0⟩))
      ⟨0, ⟨.identity (.exact 0), ⟨1, 0, 0⟩, 0⟩⟩) := by
  have htrust : 0 < Trust.rate.maxOrder := by decide
  have hfixed := (spin_rests_iff 0 0 Quaternion.normalized_tilt ⟨1, 0, 0⟩ htrust
    (List.cons_ne_nil 0 [1])).2
  apply hfixed.mpr
  ext <;> simp [Quaternion.tilt, Quaternion.apply_eq, Quaternion.rotate, Vec3.cross]

/-- A spin across the axis of the tilt is not. -/
theorem spin_across_tilt_turns :
    Quaternion.tilt.Normalized
      ∧ firstOffset (.exact 0) .rate 0 ([0, 1].map (spinPoint (.exact 0) .tilt ⟨0, 0, 1⟩))
        = .ok (offsetOf 0 0 ⟨0, 0, 1⟩)
      ∧ ¬ Rests (residuals (.exact 0) 0 ([0, 1].map (spinPoint (.exact 0) .tilt ⟨0, 0, 1⟩))
        (offsetOf 0 0 ⟨0, 0, 1⟩)) := by
  refine ⟨Quaternion.normalized_tilt,
    firstOffset_spin 0 0 .tilt ⟨0, 0, 1⟩ (by decide) (List.cons_ne_nil 0 [1]), ?_⟩
  intro hrests
  have hfixed := fixed_of_rests 0 0 Quaternion.normalized_tilt (List.cons_ne_nil 0 [1]) hrests
  have hz := congrArg Vec3.z hfixed
  norm_num [Quaternion.tilt, Quaternion.apply_eq, Quaternion.rotate, Vec3.cross] at hz

end AngularMotion.Interpolation
