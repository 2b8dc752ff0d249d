import AngularMotion.Proofs.Quaternion.Rotation
import Mathlib.Geometry.Euclidean.Angle.Unoriented.TriangleInequality

/-!
# The distance of rotations

Normalized quaternions are points of a sphere. The distance of two of them is twice the angle from
one to the nearer of the two representatives of the other: it is twice one of these two angles
(`exists_distance_eq_angle`) and at most twice either (`distance_le_angle`). So it inherits the
triangle inequality of angles (`distance_triangle`), whichever representatives are the nearer ones.

Dot products do not change where both quaternions are composed with a third, on either side, and
neither do distances (`distance_compose_left`, `distance_compose_right`).
-/

namespace AngularMotion

/-- The angle to a point of the unit circle that is not below the first axis. -/
theorem arctan2_eq_arccos {x y : ℝ} (hy : 0 ≤ y) (hunit : x * x + y * y = 1) :
    Elementary.arctan2 y x = Real.arccos x := by
  have hnorm : ‖(⟨x, y⟩ : ℂ)‖ = 1 := by
    rw [Complex.norm_def, Complex.normSq_mk, hunit, Real.sqrt_one]
  have hne : (⟨x, y⟩ : ℂ) ≠ 0 := by
    rw [← norm_ne_zero_iff, hnorm]
    exact one_ne_zero
  change Complex.arg ⟨x, y⟩ = Real.arccos x
  rw [Complex.arg_of_im_nonneg_of_ne_zero hy hne, hnorm, div_one]

namespace Quaternion

variable {a b c q : Quaternion ℝ}

/-! ## Dot products -/

section Ring

variable {R : Type} [CommRing R] (a b c : Quaternion R)

theorem dot_comm : a.dot b = b.dot a := by
  rw [dot_eq, dot_eq]
  ring

theorem neg_dot : (-a).dot b = -a.dot b := by
  simp only [dot_eq, neg_w, neg_v, Vec3.neg_x, Vec3.neg_y, Vec3.neg_z]
  ring

theorem product_dot_product_left : (c.product a).dot (c.product b) = c.normSq * a.dot b := by
  simp only [normSq, dot_eq, product, Vec3.dot_eq, Vec3.cross, Vec3.add_x, Vec3.add_y, Vec3.add_z,
    Vec3.smul_x, Vec3.smul_y, Vec3.smul_z]
  ring

theorem product_dot_product_right : (a.product c).dot (b.product c) = c.normSq * a.dot b := by
  simp only [normSq, dot_eq, product, Vec3.dot_eq, Vec3.cross, Vec3.add_x, Vec3.add_y, Vec3.add_z,
    Vec3.smul_x, Vec3.smul_y, Vec3.smul_z]
  ring

end Ring

theorem Normalized.dot_compose_left (hc : c.Normalized) (ha : a.Normalized) (hb : b.Normalized) :
    (c.compose a).dot (c.compose b) = a.dot b := by
  rw [hc.compose_eq ha, hc.compose_eq hb, product_dot_product_left, hc, one_mul]

theorem Normalized.dot_compose_right (hc : c.Normalized) (ha : a.Normalized) (hb : b.Normalized) :
    (a.compose c).dot (b.compose c) = a.dot b := by
  rw [ha.compose_eq hc, hb.compose_eq hc, product_dot_product_right, hc, one_mul]

/-- On the sphere only the point itself has the dot product one. -/
theorem Normalized.dot_eq_one_iff (ha : a.Normalized) (hb : b.Normalized) : a.dot b = 1 ↔ a = b := by
  rw [← inner_hamilton,
    inner_eq_one_iff_of_norm_eq_one (normalized_iff_norm.mp ha) (normalized_iff_norm.mp hb)]
  exact hamilton_injective.eq_iff

theorem Normalized.abs_dot_le_one (ha : a.Normalized) (hb : b.Normalized) : |a.dot b| ≤ 1 := by
  have hle := abs_real_inner_le_norm a.hamilton b.hamilton
  rwa [inner_hamilton, normalized_iff_norm.mp ha, normalized_iff_norm.mp hb, one_mul] at hle

/-! ## Distances -/

theorem Normalized.w_mul_add_norm_mul (h : q.Normalized) : q.w * q.w + q.v.norm * q.v.norm = 1 := by
  rw [Vec3.norm_mul_self, Vec3.dot_eq]
  linear_combination normalized_iff.mp h

/-- The dot product, whatever its sign, is the cosine of half the distance. -/
theorem Normalized.distance_eq (ha : a.Normalized) (hb : b.Normalized) :
    a.distance b = 2 * Real.arccos |a.dot b| := by
  have hunit := (ha.product hb.conjugate).w_mul_add_norm_mul
  rw [← abs_mul_abs_self, w_product_conjugate, dot_comm] at hunit
  rw [distance, w_product_conjugate, dot_comm]
  exact congrArg (2 * ·) (arctan2_eq_arccos (Vec3.zero_le_norm _) hunit)

theorem Normalized.distance_nonneg (ha : a.Normalized) (hb : b.Normalized) : 0 ≤ a.distance b := by
  rw [ha.distance_eq hb]
  exact mul_nonneg zero_le_two (Real.arccos_nonneg _)

theorem Normalized.distance_le_pi (ha : a.Normalized) (hb : b.Normalized) :
    a.distance b ≤ Real.pi := by
  have hquarter : Real.arccos |a.dot b| ≤ Real.pi / 2 :=
    Real.arccos_le_pi_div_two.mpr (abs_nonneg _)
  rw [ha.distance_eq hb]
  linarith

theorem Normalized.distance_comm (ha : a.Normalized) (hb : b.Normalized) :
    a.distance b = b.distance a := by
  rw [ha.distance_eq hb, hb.distance_eq ha, dot_comm]

/-- The other representative is as far away. -/
theorem Normalized.neg_distance (ha : a.Normalized) (hb : b.Normalized) :
    (-a).distance b = a.distance b := by
  rw [ha.neg.distance_eq hb, ha.distance_eq hb, neg_dot, abs_neg]

theorem Normalized.distance_neg (ha : a.Normalized) (hb : b.Normalized) :
    a.distance (-b) = a.distance b := by
  rw [ha.distance_comm hb.neg, hb.neg_distance ha, hb.distance_comm ha]

theorem Normalized.distance_eq_zero_iff (ha : a.Normalized) (hb : b.Normalized) :
    a.distance b = 0 ↔ a = b ∨ a = -b := by
  have hsize : a.distance b = 0 ↔ |a.dot b| = 1 := by
    rw [ha.distance_eq hb, mul_eq_zero_iff_left (two_ne_zero' ℝ), Real.arccos_eq_zero]
    exact ⟨(ha.abs_dot_le_one hb).antisymm, ge_of_eq⟩
  have hopposite : a.dot b = -1 ↔ a = -b := by
    rw [← ha.dot_eq_one_iff hb.neg, dot_comm a (-b), neg_dot, dot_comm, neg_eq_iff_eq_neg]
  rw [hsize, abs_eq zero_le_one, ha.dot_eq_one_iff hb, hopposite]

theorem Normalized.distance_compose_left (hc : c.Normalized) (ha : a.Normalized)
    (hb : b.Normalized) : (c.compose a).distance (c.compose b) = a.distance b := by
  rw [(hc.compose ha).distance_eq (hc.compose hb), hc.dot_compose_left ha hb, ha.distance_eq hb]

theorem Normalized.distance_compose_right (hc : c.Normalized) (ha : a.Normalized)
    (hb : b.Normalized) : (a.compose c).distance (b.compose c) = a.distance b := by
  rw [(ha.compose hc).distance_eq (hb.compose hc), hc.dot_compose_right ha hb, ha.distance_eq hb]

/-! ## The triangle inequality -/

section Triangle

variable {sign : ℝ}

theorem Normalized.angle_hamilton (ha : a.Normalized) (hb : b.Normalized) :
    InnerProductGeometry.angle a.hamilton b.hamilton = Real.arccos (a.dot b) := by
  simp [InnerProductGeometry.angle, inner_hamilton, normalized_iff_norm.mp ha,
    normalized_iff_norm.mp hb]

/-- The angle to a representative of the other rotation. -/
theorem Normalized.angle_smul (ha : a.Normalized) (hb : b.Normalized) (hsign : sign * sign = 1) :
    InnerProductGeometry.angle a.hamilton (sign • b).hamilton = Real.arccos (sign * a.dot b) := by
  have hdot := smul_dot 1 sign a b
  rw [one_smul, one_mul] at hdot
  rw [ha.angle_hamilton (hb.smul hsign), hdot]

theorem Normalized.distance_le_angle (ha : a.Normalized) (hb : b.Normalized)
    (hsign : sign * sign = 1) :
    a.distance b ≤ 2 * InnerProductGeometry.angle a.hamilton (sign • b).hamilton := by
  have hsize : sign * a.dot b ≤ |a.dot b| := by
    rcases mul_self_eq_one_iff.mp hsign with rfl | rfl
    · rw [one_mul]
      exact le_abs_self _
    · rw [neg_one_mul]
      exact neg_le_abs _
  rw [ha.distance_eq hb, ha.angle_smul hb hsign]
  exact mul_le_mul_of_nonneg_left (Real.arccos_le_arccos hsize) zero_le_two

theorem Normalized.exists_distance_eq_angle (ha : a.Normalized) (hb : b.Normalized) :
    ∃ sign : ℝ, sign * sign = 1
      ∧ a.distance b = 2 * InnerProductGeometry.angle a.hamilton (sign • b).hamilton := by
  have hsize : ∃ sign : ℝ, sign * sign = 1 ∧ sign * a.dot b = |a.dot b| := by
    rcases abs_choice (a.dot b) with h | h
    · exact ⟨1, one_mul 1, by rw [one_mul, h]⟩
    · exact ⟨-1, by norm_num, by rw [neg_one_mul, h]⟩
  obtain ⟨sign, hsign, hdot⟩ := hsize
  exact ⟨sign, hsign, by rw [ha.angle_smul hb hsign, hdot, ha.distance_eq hb]⟩

/-- The way by a third rotation is not shorter. The representatives are chosen one after the other
along it. -/
theorem Normalized.distance_triangle (ha : a.Normalized) (hb : b.Normalized) (hc : c.Normalized) :
    a.distance c ≤ a.distance b + b.distance c := by
  obtain ⟨s, hs, hfirst⟩ := ha.exists_distance_eq_angle hb
  obtain ⟨t, ht, hsecond⟩ := hb.exists_distance_eq_angle hc
  have hst : s * t * (s * t) = 1 := by rw [mul_mul_mul_comm, hs, ht, one_mul]
  have hsecond' : InnerProductGeometry.angle (s • b).hamilton ((s * t) • c).hamilton
      = InnerProductGeometry.angle b.hamilton (t • c).hamilton := by
    have hne : s ≠ 0 := left_ne_zero_of_mul_eq_one hs
    rw [hamilton_smul, hamilton_smul, hamilton_smul, mul_smul,
      InnerProductGeometry.angle_smul_smul hne]
  calc
    a.distance c ≤ 2 * InnerProductGeometry.angle a.hamilton ((s * t) • c).hamilton :=
      ha.distance_le_angle hc hst
    _ ≤ 2 * (InnerProductGeometry.angle a.hamilton (s • b).hamilton
        + InnerProductGeometry.angle (s • b).hamilton ((s * t) • c).hamilton) :=
      mul_le_mul_of_nonneg_left (InnerProductGeometry.angle_le_angle_add_angle _ _ _) zero_le_two
    _ = a.distance b + b.distance c := by rw [hsecond', hfirst, hsecond, mul_add]

end Triangle

end Quaternion

end AngularMotion
