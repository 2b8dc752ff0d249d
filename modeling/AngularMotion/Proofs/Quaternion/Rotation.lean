import AngularMotion.Proofs.Quaternion.Sandwich
import Mathlib.Analysis.Normed.Algebra.QuaternionExponential

/-!
# Rotations over the reals

Over the reals normalization leaves products of normalized quaternions as they are, so that
composition and inversion are the operations of the ring. The exponential of a rotation vector `u`
is the exponential of `u / 2` in the ring (`hamilton_exp`).

Composition, inversion and the exponential give normalized quaternions (`Normalized.compose`,
`Normalized.inverse`, `normalized_exp`), which act on vectors as a group
(`Normalized.apply_compose`). Composition is associative for all quaternions (`compose_assoc`).

Of the two representatives of a rotation the logarithm reads the `upper` one (`log_eq`).
-/

open scoped Quaternion

namespace AngularMotion

/-! ## Vectors and norms -/

theorem Vec3.norm_eq (u : Vec3 ℝ) : u.norm = ‖u.hamilton‖ := by
  have h : u.hamilton.normSq = u.x * u.x + (u.y * u.y + u.z * u.z) := by
    simp [Quaternion.normSq_def']
    ring
  rw [norm, norm_eq_sqrt_real_inner, Quaternion.inner_self, h]
  simp [Elementary.sqrt, Storable.total]

theorem Vec3.inner_hamilton (u v : Vec3 ℝ) : inner ℝ u.hamilton v.hamilton = u.dot v := by
  simp [Quaternion.inner_def, Vec3.dot_eq]
  ring

theorem Vec3.norm_mul_self (u : Vec3 ℝ) : u.norm * u.norm = u.dot u := by
  rw [norm_eq, ← real_inner_self_eq_norm_mul_norm, inner_hamilton]

theorem Vec3.zero_le_norm (u : Vec3 ℝ) : 0 ≤ u.norm := by
  rw [norm_eq]
  exact norm_nonneg _

theorem Vec3.norm_eq_zero_iff {u : Vec3 ℝ} : u.norm = 0 ↔ u = 0 := by
  rw [norm_eq, norm_eq_zero, ← hamilton_zero, hamilton_injective.eq_iff]

theorem Vec3.norm_ne_zero {u : Vec3 ℝ} (h : u ≠ 0) : u.norm ≠ 0 := mt norm_eq_zero_iff.mp h

theorem Vec3.norm_neg (u : Vec3 ℝ) : (-u).norm = u.norm := by
  simp [norm_eq]

theorem Vec3.norm_first : (⟨1, 0, 0⟩ : Vec3 ℝ).norm = 1 := by
  simp [norm, Elementary.sqrt, Storable.total]

/-- The vector product is half the commutator. -/
theorem Vec3.hamilton_cross (u v : Vec3 ℝ) :
    (u.cross v).hamilton
      = (1 / 2 : ℝ) • (u.hamilton * v.hamilton - v.hamilton * u.hamilton) := by
  ext <;> simp [Vec3.cross] <;> ring

namespace Quaternion

theorem norm_eq (q : Quaternion ℝ) : q.norm = ‖q.hamilton‖ := by
  have h : q.hamilton.normSq = q.w * q.w + (q.v.x * q.v.x + (q.v.y * q.v.y + q.v.z * q.v.z)) := by
    simp [Quaternion.normSq_def']
    ring
  rw [norm, norm_eq_sqrt_real_inner, Quaternion.inner_self, h]
  simp [Elementary.sqrt, Storable.total]

theorem inner_hamilton (a b : Quaternion ℝ) : inner ℝ a.hamilton b.hamilton = a.dot b := by
  simp [Quaternion.inner_def, dot_eq]

variable {a b q : Quaternion ℝ}

theorem normalized_iff_norm : q.Normalized ↔ ‖q.hamilton‖ = 1 := by
  rw [normalized_iff_mul_star, Quaternion.self_mul_star, Quaternion.normSq_eq_norm_mul_self]
  constructor
  · intro h
    have h : ‖q.hamilton‖ * ‖q.hamilton‖ = 1 := by simpa using congrArg (·.re) h
    nlinarith [norm_nonneg q.hamilton]
  · intro h
    rw [h]
    simp

theorem Normalized.norm_eq_one (h : q.Normalized) : q.norm = 1 := by
  rw [norm_eq, normalized_iff_norm.mp h]

@[simp] theorem div_one (q : Quaternion ℝ) : q / (1 : ℝ) = q := by
  ext <;> simp

theorem norm_ne_zero (h : q ≠ ⟨0, 0⟩) : q.norm ≠ 0 := by
  rw [norm_eq, norm_ne_zero_iff, Ne, hamilton_eq_zero_iff]
  exact h

/-- Whatever is not zero can be normalized. -/
theorem normalized_normalize (h : q ≠ ⟨0, 0⟩) : q.normalize.Normalized := by
  have hnorm : ‖q.hamilton‖ ≠ 0 := norm_eq q ▸ norm_ne_zero h
  rw [normalized_iff_norm, normalize, hamilton_div, norm_smul, norm_eq, norm_inv, norm_norm,
    inv_mul_cancel₀ hnorm]

/-- What is normalized already stays as it is. -/
theorem Normalized.normalize_eq (h : q.Normalized) : q.normalize = q := by
  rw [normalize, h.norm_eq_one, div_one]

/-! ## Algebra -/

theorem Normalized.compose_eq (ha : a.Normalized) (hb : b.Normalized) :
    a.compose b = a.product b :=
  (ha.product hb).normalize_eq

theorem Normalized.hamilton_compose (ha : a.Normalized) (hb : b.Normalized) :
    (a.compose b).hamilton = a.hamilton * b.hamilton := by
  rw [ha.compose_eq hb, hamilton_product]

theorem Normalized.compose (ha : a.Normalized) (hb : b.Normalized) :
    (a.compose b).Normalized := by
  rw [ha.compose_eq hb]
  exact ha.product hb

theorem Normalized.neg_compose (ha : a.Normalized) (hb : b.Normalized) :
    (-a).compose b = -a.compose b := by
  apply hamilton_injective
  rw [ha.neg.hamilton_compose hb, hamilton_neg, hamilton_neg, ha.hamilton_compose hb, neg_mul]

theorem hamilton_normalize (q : Quaternion ℝ) :
    q.normalize.hamilton = ‖q.hamilton‖⁻¹ • q.hamilton := by
  rw [normalize, hamilton_div, norm_eq]

/-- Lengths that are divided out first make no difference. -/
theorem normalize_compose (a b : Quaternion ℝ) : a.normalize.compose b = a.compose b := by
  apply hamilton_injective
  simp only [Quaternion.compose, hamilton_normalize, hamilton_product, smul_mul_assoc, norm_smul,
    norm_inv, norm_norm, smul_smul]
  rcases eq_or_ne ‖a.hamilton‖ 0 with ha | ha
  · simp [norm_eq_zero.mp ha]
  · rw [mul_inv, inv_inv, mul_right_comm, mul_inv_cancel₀ ha, one_mul]

theorem compose_normalize (a b : Quaternion ℝ) : a.compose b.normalize = a.compose b := by
  apply hamilton_injective
  simp only [Quaternion.compose, hamilton_normalize, hamilton_product, mul_smul_comm, norm_smul,
    norm_inv, norm_norm, smul_smul]
  rcases eq_or_ne ‖b.hamilton‖ 0 with hb | hb
  · simp [norm_eq_zero.mp hb]
  · rw [mul_inv, inv_inv, mul_right_comm, mul_inv_cancel₀ hb, one_mul]

/-- Composition is associative, whether anything is normalized or not. -/
theorem compose_assoc (a b c : Quaternion ℝ) :
    (a.compose b).compose c = a.compose (b.compose c) := by
  have hproduct : (a.product b).product c = a.product (b.product c) := by
    apply hamilton_injective
    simp only [hamilton_product, mul_assoc]
  calc
    (a.compose b).compose c = ((a.product b).product c).normalize := normalize_compose _ c
    _ = (a.product (b.product c)).normalize := by rw [hproduct]
    _ = a.compose (b.compose c) := (compose_normalize a _).symm

theorem Normalized.inverse_eq (h : q.Normalized) : q.inverse = q.conjugate := by
  rw [Quaternion.inverse, h.norm_eq_one, div_one]

theorem Normalized.hamilton_inverse (h : q.Normalized) : q.inverse.hamilton = star q.hamilton := by
  rw [h.inverse_eq, hamilton_conjugate]

theorem Normalized.inverse (h : q.Normalized) : q.inverse.Normalized := by
  rw [h.inverse_eq]
  exact h.conjugate

/-- Inversion normalizes the conjugate. -/
theorem normalize_conjugate (q : Quaternion ℝ) : q.conjugate.normalize = q.inverse := by
  rw [normalize, Quaternion.inverse, norm_eq, norm_eq, hamilton_conjugate, norm_star]

/-! ## Action on vectors -/

theorem apply_eq (q : Quaternion ℝ) (u : Vec3 ℝ) : q.apply u = q.rotate u := rfl

theorem Normalized.hamilton_apply (h : q.Normalized) (u : Vec3 ℝ) :
    (q.apply u).hamilton = q.hamilton * u.hamilton * star q.hamilton := by
  rw [apply_eq, hamilton_rotate h]

theorem Normalized.hamilton_applyInverse (h : q.Normalized) (u : Vec3 ℝ) :
    (q.applyInverse u).hamilton = star q.hamilton * u.hamilton * q.hamilton := by
  rw [applyInverse, h.conjugate.hamilton_apply, hamilton_conjugate, star_star]

theorem Normalized.apply_compose (ha : a.Normalized) (hb : b.Normalized) (u : Vec3 ℝ) :
    (a.compose b).apply u = a.apply (b.apply u) := by
  rw [ha.compose_eq hb, apply_eq, ha.rotate_product hb, apply_eq, apply_eq]

theorem Normalized.apply_inverse (h : q.Normalized) (u : Vec3 ℝ) :
    q.inverse.apply u = q.applyInverse u := by
  rw [h.inverse_eq, applyInverse]

@[simp] theorem apply_zero (q : Quaternion ℝ) : q.apply 0 = 0 := by
  ext <;> simp [apply_eq, rotate, Vec3.cross]

theorem one_apply (u : Vec3 ℝ) : (⟨1, 0⟩ : Quaternion ℝ).apply u = u := by
  ext <;> simp [apply_eq, rotate, Vec3.cross]

/-- A rotation takes no other vector to zero. -/
theorem Normalized.apply_eq_zero_iff (h : q.Normalized) (u : Vec3 ℝ) : q.apply u = 0 ↔ u = 0 := by
  constructor
  · intro hzero
    calc
      u = q.conjugate.apply (q.apply u) := (h.conjugate_rotate_rotate u).symm
      _ = 0 := by rw [hzero, apply_zero]
  · rintro rfl
    exact apply_zero q

theorem apply_neg (q : Quaternion ℝ) (u : Vec3 ℝ) : q.apply (-u) = -q.apply u := by
  ext <;> simp [apply_eq, rotate, Vec3.cross] <;> ring

theorem apply_sub (q : Quaternion ℝ) (u v : Vec3 ℝ) : q.apply (u - v) = q.apply u - q.apply v := by
  ext <;> simp [apply_eq, rotate, Vec3.cross] <;> ring

theorem apply_add (q : Quaternion ℝ) (u v : Vec3 ℝ) : q.apply (u + v) = q.apply u + q.apply v := by
  ext <;> simp [apply_eq, rotate, Vec3.cross] <;> ring

theorem apply_smul (q : Quaternion ℝ) (u : Vec3 ℝ) (k : ℝ) : q.apply (k • u) = k • q.apply u := by
  ext <;> simp [apply_eq, rotate, Vec3.cross] <;> ring

theorem apply_div (q : Quaternion ℝ) (u : Vec3 ℝ) (k : ℝ) : q.apply (u / k) = q.apply u / k := by
  ext <;> simp [apply_eq, rotate, Vec3.cross] <;> ring

/-- Both representatives of a rotation act in the same way. -/
theorem smul_apply {sign : ℝ} (hsign : sign * sign = 1) (q : Quaternion ℝ) (u : Vec3 ℝ) :
    (sign • q).apply u = q.apply u := by
  rw [apply_eq, smul_rotate hsign, apply_eq]

/-! ## Identity and turns -/

theorem identity_exact (ε : ℝ) : identity (.exact ε) = (⟨1, 0⟩ : Quaternion ℝ) := by
  ext <;> simp [identity, map, Vec3.map]

@[simp] theorem hamilton_one : (⟨1, 0⟩ : Quaternion ℝ).hamilton = 1 := by
  ext <;> simp

theorem normalized_one : (⟨1, 0⟩ : Quaternion ℝ).Normalized := by
  simp [normalized_iff]

theorem Normalized.compose_one (h : q.Normalized) : q.compose ⟨1, 0⟩ = q := by
  apply hamilton_injective
  rw [h.hamilton_compose normalized_one, hamilton_one, mul_one]

theorem Normalized.one_compose (h : q.Normalized) : Quaternion.compose ⟨1, 0⟩ q = q := by
  apply hamilton_injective
  rw [normalized_one.hamilton_compose h, hamilton_one, one_mul]

theorem Normalized.compose_inverse (h : q.Normalized) : q.compose q.inverse = ⟨1, 0⟩ := by
  apply hamilton_injective
  rw [h.hamilton_compose h.inverse, h.hamilton_inverse, h.hamilton_mul_star, hamilton_one]

theorem Normalized.inverse_compose (h : q.Normalized) : q.inverse.compose q = ⟨1, 0⟩ := by
  apply hamilton_injective
  rw [h.inverse.hamilton_compose h, h.hamilton_inverse, h.star_mul_hamilton, hamilton_one]

/-- The turn from one rotation to another leads there. -/
theorem Normalized.compose_inverse_compose (ha : a.Normalized) (hb : b.Normalized) :
    (b.compose a.inverse).compose a = b := by
  rw [compose_assoc, ha.inverse_compose, hb.compose_one]

/-- A turn that is added is found again. -/
theorem Normalized.compose_compose_inverse (ha : a.Normalized) (hq : q.Normalized) :
    (q.compose a).compose a.inverse = q := by
  rw [compose_assoc, ha.compose_inverse, hq.compose_one]

/-- The turn back is the inverse. -/
theorem Normalized.inverse_compose_inverse (ha : a.Normalized) (hb : b.Normalized) :
    (b.compose a.inverse).inverse = a.compose b.inverse := by
  apply hamilton_injective
  rw [(hb.compose ha.inverse).hamilton_inverse, hb.hamilton_compose ha.inverse, ha.hamilton_inverse,
    ha.hamilton_compose hb.inverse, hb.hamilton_inverse, star_mul, star_star]

theorem inverse_one : (⟨1, 0⟩ : Quaternion ℝ).inverse = ⟨1, 0⟩ := by
  apply hamilton_injective
  rw [normalized_one.hamilton_inverse, hamilton_one, star_one]

theorem log_one : (⟨1, 0⟩ : Quaternion ℝ).log = 0 := by
  have hpositive : ¬ (1 : ℝ) < 0 := by norm_num
  simp only [log, if_neg hpositive, Vec3.smul_zero]

/-- A turn about the first axis, by more than a quarter. -/
noncomputable def tilt : Quaternion ℝ := ⟨3 / 5, ⟨4 / 5, 0, 0⟩⟩

theorem normalized_tilt : tilt.Normalized := by
  rw [normalized_iff, tilt]
  norm_num

theorem ofAxisAngle_exact (ε : ℝ) (axis : Vec3 ℝ) (angle : ℝ) :
    ofAxisAngle (.exact ε) axis angle = turn axis angle := rfl

theorem turn_eq (axis : Vec3 ℝ) (angle : ℝ) :
    turn axis angle = ⟨Real.cos (angle / 2), Real.sin (angle / 2) • (axis / axis.norm)⟩ := rfl

theorem ofAxisAngle_first (ε angle : ℝ) :
    ofAxisAngle (.exact ε) ⟨1, 0, 0⟩ angle =
      ⟨Real.cos (angle / 2), ⟨Real.sin (angle / 2), 0, 0⟩⟩ := by
  rw [ofAxisAngle_exact, turn_eq, Vec3.norm_first]
  ext <;> simp

/-! ## The exponential -/

/-- The exponential before it is normalized. -/
private theorem hamilton_exp_ratio (u : Vec3 ℝ) :
    (⟨Real.cos (u.norm / 2),
      (if 0 < u.norm then Real.sin (u.norm / 2) / u.norm else 1 / 2) • u⟩ : Quaternion ℝ).hamilton
      = NormedSpace.exp ((1 / 2 : ℝ) • u.hamilton) := by
  have hre : ((1 / 2 : ℝ) • u.hamilton).re = 0 := by simp
  have hnorm : ‖(1 / 2 : ℝ) • u.hamilton‖ = u.norm / 2 := by
    rw [norm_smul, Vec3.norm_eq]
    norm_num
    ring
  rw [Quaternion.exp_of_re_eq_zero _ hre, hnorm]
  by_cases hu : 0 < u.norm
  · rw [if_pos hu, smul_smul]
    have : Real.sin (u.norm / 2) / (u.norm / 2) * (1 / 2) = Real.sin (u.norm / 2) / u.norm := by
      field_simp
    rw [this]
    ext <;> simp
  · have h0 : u.hamilton = 0 := by
      rw [← norm_eq_zero, ← Vec3.norm_eq]
      exact le_antisymm (not_lt.mp hu) (Vec3.norm_eq u ▸ norm_nonneg _)
    have : u = 0 := Vec3.hamilton_injective (by simpa using h0)
    subst this
    rw [if_neg hu]
    ext <;> simp

theorem hamilton_exp (u : Vec3 ℝ) :
    (exp u).hamilton = NormedSpace.exp ((1 / 2 : ℝ) • u.hamilton) := by
  have h := hamilton_exp_ratio u
  rw [exp, Normalized.normalize_eq]
  · exact h
  · rw [normalized_iff_norm]
    refine (congrArg _ h).trans ?_
    simp

/-- The exponential has norm one before it is normalized. -/
theorem exp_eq (u : Vec3 ℝ) :
    exp u = ⟨Real.cos (u.norm / 2),
      (if 0 < u.norm then Real.sin (u.norm / 2) / u.norm else 1 / 2) • u⟩ :=
  hamilton_injective ((hamilton_exp u).trans (hamilton_exp_ratio u).symm)

theorem normalized_exp (u : Vec3 ℝ) : (exp u).Normalized := by
  rw [normalized_iff_norm, hamilton_exp]
  simp

@[simp] theorem exp_zero : exp (0 : Vec3 ℝ) = ⟨1, 0⟩ := by
  apply hamilton_injective
  rw [hamilton_exp, hamilton_one]
  simp

/-! ## The upper representative -/

/-- The representative whose scalar part is not negative. -/
def upper {α : Type} [Zero α] [Neg α] [LT α] [DecidableLT α] (q : Quaternion α) : Quaternion α :=
  if q.w < 0 then -q else q

theorem upper_of_nonneg (h : 0 ≤ q.w) : q.upper = q := if_neg h.not_gt

theorem upper_of_neg (h : q.w < 0) : q.upper = -q := if_pos h

/-- The logarithm reads the upper representative. -/
theorem log_eq (q : Quaternion ℝ) :
    q.log = (if 1e-15 < q.upper.v.norm then q.upper.angle / q.upper.v.norm else 2 / q.upper.w)
      • q.upper.v := rfl

end Quaternion

end AngularMotion
