import AngularMotion.Proofs.Quaternion.Rotation

/-!
# Turns about one axis

Turns by parallel vectors add up (`exp_compose_exp_of_parallel`). So the exponentials of the
multiples of a vector form a group of turns about its axis (`exp_compose_exp`, `inverse_exp`), which
leave the axis as it is (`exp_apply_self`). A rotation commutes with all of them if it leaves the
axis as it is (`compose_exp_of_fixed`).
-/

open scoped Quaternion

namespace AngularMotion

theorem Vec3.norm_scaled (k : ℝ) (u : Vec3 ℝ) : (k • u).norm = |k| * u.norm := by
  rw [norm_eq, norm_eq, hamilton_smul, norm_smul, Real.norm_eq_abs]

/-- Parallel vectors commute in the ring. -/
theorem Vec3.commute_of_parallel {u v : Vec3 ℝ} (h : u.cross v = 0) :
    Commute u.hamilton v.hamilton := by
  have hcommutator := hamilton_cross u v
  rw [h, hamilton_zero, eq_comm, smul_eq_zero_iff_right one_half_pos.ne'] at hcommutator
  exact sub_eq_zero.mp hcommutator

namespace Quaternion

variable {q : Quaternion ℝ} (s t : ℝ) (u : Vec3 ℝ)

theorem hamilton_exp_smul :
    (exp (s • u)).hamilton = NormedSpace.exp (s • (1 / 2 : ℝ) • u.hamilton) := by
  rw [hamilton_exp, Vec3.hamilton_smul, smul_comm]

theorem commute_smul_half : Commute (s • (1 / 2 : ℝ) • u.hamilton) u.hamilton :=
  ((Commute.refl u.hamilton).smul_left _).smul_left _

variable {u} in
/-- Turns by parallel vectors add up, whichever way they go. -/
theorem exp_compose_exp_of_parallel {v : Vec3 ℝ} (h : u.cross v = 0) :
    (exp u).compose (exp v) = exp (u + v) := by
  have hcommute : Commute ((1 / 2 : ℝ) • u.hamilton) ((1 / 2 : ℝ) • v.hamilton) :=
    ((Vec3.commute_of_parallel h).smul_left _).smul_right _
  let := NormedAlgebra.restrictScalars ℚ ℝ ℍ[ℝ]
  apply hamilton_injective
  rw [(normalized_exp u).hamilton_compose (normalized_exp v), hamilton_exp, hamilton_exp,
    hamilton_exp, Vec3.hamilton_add, smul_add, NormedSpace.exp_add_of_commute hcommute]

theorem exp_compose_exp : (exp (s • u)).compose (exp (t • u)) = exp ((s + t) • u) := by
  have hparallel : (s • u).cross (t • u) = 0 := by
    ext <;> simp [Vec3.cross] <;> ring
  have hsum : s • u + t • u = (s + t) • u := by
    ext <;> simp [add_mul]
  rw [exp_compose_exp_of_parallel hparallel, hsum]

theorem inverse_exp : (exp (s • u)).inverse = exp ((-s) • u) := by
  apply hamilton_injective
  rw [(normalized_exp _).hamilton_inverse, hamilton_exp_smul, hamilton_exp_smul,
    NormedSpace.star_exp]
  simp

/-- A turn leaves its axis as it is. -/
theorem exp_apply_self : (exp (s • u)).apply u = u := by
  have hcommute : Commute (exp (s • u)).hamilton u.hamilton := by
    rw [hamilton_exp_smul]
    exact (commute_smul_half s u).exp_left
  apply Vec3.hamilton_injective
  rw [(normalized_exp _).hamilton_apply, hcommute.eq, mul_assoc,
    (normalized_exp _).hamilton_mul_star, mul_one]

variable {u}

/-- A rotation that leaves an axis as it is commutes with the turns about it. -/
theorem compose_exp_of_fixed (hq : q.Normalized) (hu : q.apply u = u) :
    q.compose (exp (s • u)) = (exp (s • u)).compose q := by
  have hcommute : Commute u.hamilton q.hamilton := by
    have happly := hq.hamilton_apply u
    rw [hu] at happly
    calc
      u.hamilton * q.hamilton
          = q.hamilton * u.hamilton * star q.hamilton * q.hamilton := by rw [← happly]
      _ = q.hamilton * u.hamilton := by rw [mul_assoc, hq.star_mul_hamilton, mul_one]
  apply hamilton_injective
  rw [hq.hamilton_compose (normalized_exp _), (normalized_exp _).hamilton_compose hq,
    hamilton_exp_smul]
  exact (((hcommute.smul_left _).smul_left _).exp_left).eq.symm

/-! ## Unit axes -/

section UnitAxis

variable {axis : Vec3 ℝ}

/-- The turn by an angle about a unit axis. -/
theorem exp_smul_of_unit (hunit : axis.norm = 1) (θ : ℝ) :
    exp (θ • axis) = ⟨Real.cos (θ / 2), Real.sin (θ / 2) • axis⟩ := by
  have hnorm : (θ • axis).norm = |θ| := by rw [Vec3.norm_scaled, hunit, mul_one]
  have hcos : Real.cos (|θ| / 2) = Real.cos (θ / 2) := by
    rw [← Real.cos_abs (θ / 2), abs_div, abs_two]
  have hsin : (if 0 < |θ| then Real.sin (|θ| / 2) / |θ| else 1 / 2) * θ = Real.sin (θ / 2) := by
    rcases lt_trichotomy θ 0 with hneg | rfl | hpos
    · rw [abs_of_neg hneg, if_pos (neg_pos.mpr hneg), neg_div, Real.sin_neg, neg_div_neg_eq,
        div_mul_cancel₀ _ hneg.ne]
    · simp
    · rw [abs_of_pos hpos, if_pos hpos, div_mul_cancel₀ _ hpos.ne']
  rw [exp_eq, hnorm, hcos, ← hsin, Vec3.smul_smul]

/-- Any vector but zero has a unit vector along it. -/
theorem norm_div_norm (haxis : axis ≠ 0) : (axis / axis.norm).norm = 1 := by
  have hnorm : ‖axis.hamilton‖ ≠ 0 := Vec3.norm_eq axis ▸ Vec3.norm_ne_zero haxis
  rw [Vec3.norm_eq, Vec3.hamilton_div, norm_smul, Vec3.norm_eq, norm_inv, norm_norm,
    inv_mul_cancel₀ hnorm]

/-- The turn about an axis of any length but zero. -/
theorem turn_eq_exp (haxis : axis ≠ 0) (θ : ℝ) : turn axis θ = exp (θ • (axis / axis.norm)) :=
  (exp_smul_of_unit (norm_div_norm haxis) θ).symm

theorem normalized_turn (haxis : axis ≠ 0) (θ : ℝ) : (turn axis θ).Normalized := by
  rw [turn_eq_exp haxis]
  exact normalized_exp _

/-- The turn by the length of a vector about its direction. -/
theorem exp_eq_turn (haxis : axis ≠ 0) : exp axis = turn axis axis.norm := by
  have hnorm := Vec3.norm_ne_zero haxis
  have hlength : axis.norm • (axis / axis.norm) = axis := by
    ext <;> simp <;> field_simp
  rw [turn_eq_exp haxis, hlength]

end UnitAxis

end Quaternion

end AngularMotion
