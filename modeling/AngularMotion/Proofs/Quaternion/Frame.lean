import AngularMotion.Proofs.Quaternion.Rotation
import Mathlib.Tactic.LinearCombination

/-!
# Turned frames

Seen in a frame that is turned by a rotation `c`, a vector `u` is `c u` and a rotation `q` is
`c q c⁻¹`. On components this leaves the scalar part as it is and turns the vector part
(`inFrame_eq`); in that form it is defined for all quaternions, normalized or not (`carried`).

Every operation on rotations commutes with it: products (`product_carried`), composition
(`compose_carried`), the action on vectors (`apply_carried`), the exponential (`exp_apply`) and the
logarithm (`log_carried`). Dot products and norms stay as they are.
-/

open scoped Quaternion

namespace AngularMotion.Quaternion

section Definitions

variable {α : Type} [Elementary α] [Storable α] [One α] [Add α] [Sub α] [Mul α] [Neg α] [Div α]

/-- The rotation `q` in a frame that is turned by `c`. -/
def inFrame (c q : Quaternion α) : Quaternion α := (c.compose q).compose c.inverse

/-- A quaternion with its vector part turned. -/
def carried [OfNat α 2] (c q : Quaternion α) : Quaternion α := ⟨q.w, c.apply q.v⟩

end Definitions

/-! ## Vectors -/

variable {c : Quaternion ℝ}

/-- A rotation keeps dot products. -/
theorem Normalized.dot_apply (hc : c.Normalized) (u v : Vec3 ℝ) :
    (c.apply u).dot (c.apply v) = u.dot v :=
  hc.dot_rotate u v

theorem Normalized.norm_apply (hc : c.Normalized) (u : Vec3 ℝ) : (c.apply u).norm = u.norm := by
  rw [Vec3.norm_eq, Vec3.norm_eq, hc.hamilton_apply, norm_mul, norm_mul, norm_star,
    normalized_iff_norm.mp hc, one_mul, mul_one]

/-- A rotation keeps vector products. -/
theorem Normalized.cross_apply (hc : c.Normalized) (u v : Vec3 ℝ) :
    (c.apply u).cross (c.apply v) = c.apply (u.cross v) :=
  hc.cross_rotate u v

/-! ## Quaternions -/

variable (a b q : Quaternion ℝ)

@[simp] theorem carried_w : (c.carried q).w = q.w := rfl

@[simp] theorem carried_v : (c.carried q).v = c.apply q.v := rfl

theorem carried_ofVector (u : Vec3 ℝ) : c.carried (ofVector u) = ofVector (c.apply u) := rfl

theorem carried_one : c.carried ⟨1, 0⟩ = ⟨1, 0⟩ := by
  rw [carried, apply_zero]

theorem carried_add : c.carried (a + b) = c.carried a + c.carried b :=
  Quaternion.ext rfl (apply_add c a.v b.v)

theorem carried_smul (k : ℝ) : c.carried (k • q) = k • c.carried q :=
  Quaternion.ext rfl (apply_smul c q.v k)

theorem carried_div (k : ℝ) : c.carried (q / k) = c.carried q / k :=
  Quaternion.ext rfl (apply_div c q.v k)

theorem carried_conjugate : c.carried q.conjugate = (c.carried q).conjugate :=
  Quaternion.ext rfl (apply_smul c q.v (-1))

/-- Carrying is conjugation in the ring. -/
theorem Normalized.hamilton_carried (hc : c.Normalized) :
    (c.carried q).hamilton = c.hamilton * q.hamilton * star c.hamilton := by
  have hparts : ∀ p : Quaternion ℝ, p.hamilton = (p.w : ℍ[ℝ]) + p.v.hamilton := by
    intro p
    ext <;> simp
  rw [hparts (c.carried q), hparts q, mul_add, add_mul, hc.mul_coe_mul_star, carried_w, carried_v,
    hc.hamilton_apply]

variable {q} in
/-- On components a change of frame turns the vector part. -/
theorem Normalized.inFrame_eq (hc : c.Normalized) (hq : q.Normalized) :
    c.inFrame q = c.carried q := by
  apply hamilton_injective
  rw [inFrame, (hc.compose hq).hamilton_compose hc.inverse, hc.hamilton_compose hq,
    hc.hamilton_inverse, hc.hamilton_carried]

theorem Normalized.dot_carried (hc : c.Normalized) :
    (c.carried a).dot (c.carried b) = a.dot b := by
  have hvector := hc.dot_apply a.v b.v
  rw [Vec3.dot_eq, Vec3.dot_eq] at hvector
  rw [dot_eq, dot_eq, carried_w, carried_w, carried_v, carried_v]
  linear_combination hvector

theorem Normalized.norm_carried (hc : c.Normalized) : (c.carried q).norm = q.norm := by
  rw [norm_eq, norm_eq, hc.hamilton_carried, norm_mul, norm_mul, norm_star,
    normalized_iff_norm.mp hc, one_mul, mul_one]

theorem Normalized.normalize_carried (hc : c.Normalized) :
    (c.carried q).normalize = c.carried q.normalize := by
  rw [normalize, normalize, hc.norm_carried, carried_div]

/-! ## Operations -/

theorem Normalized.product_carried (hc : c.Normalized) :
    (c.carried a).product (c.carried b) = c.carried (a.product b) := by
  apply hamilton_injective
  rw [hamilton_product, hc.hamilton_carried, hc.hamilton_carried, hc.hamilton_carried,
    hamilton_product]
  simp only [mul_assoc, hc.star_mul_hamilton_mul]

theorem Normalized.compose_carried (hc : c.Normalized) :
    (c.carried a).compose (c.carried b) = c.carried (a.compose b) := by
  rw [Quaternion.compose, Quaternion.compose, hc.product_carried, hc.normalize_carried]

theorem Normalized.inverse_carried (hc : c.Normalized) :
    (c.carried q).inverse = c.carried q.inverse := by
  rw [Quaternion.inverse, Quaternion.inverse, hc.norm_carried, carried_div, carried_conjugate]

theorem Normalized.apply_carried (hc : c.Normalized) (u : Vec3 ℝ) :
    (c.carried q).apply (c.apply u) = c.apply (q.apply u) := by
  rw [apply_eq (c.carried q), apply_eq q, rotate, rotate]
  simp only [carried_w, carried_v, hc.cross_apply, ← apply_smul, ← apply_add]

theorem Normalized.applyInverse_carried (hc : c.Normalized) (u : Vec3 ℝ) :
    (c.carried q).applyInverse (c.apply u) = c.apply (q.applyInverse u) := by
  rw [applyInverse, applyInverse, ← carried_conjugate, hc.apply_carried]

theorem Normalized.exp_apply (hc : c.Normalized) (u : Vec3 ℝ) :
    exp (c.apply u) = c.carried (exp u) := by
  simp only [exp, hc.norm_apply, ← apply_smul, ← hc.normalize_carried]
  rfl

theorem carried_upper : (c.carried q).upper = c.carried q.upper := by
  rcases lt_or_ge q.w 0 with hneg | hpos
  · have hcarried : (c.carried q).upper = -c.carried q := upper_of_neg hneg
    rw [hcarried, upper_of_neg hneg]
    exact Quaternion.ext rfl (apply_neg c q.v).symm
  · have hcarried : (c.carried q).upper = c.carried q := upper_of_nonneg hpos
    rw [hcarried, upper_of_nonneg hpos]

theorem Normalized.log_carried (hc : c.Normalized) : (c.carried q).log = c.apply q.log := by
  simp only [log_eq, carried_upper, angle, carried_v, carried_w, hc.norm_apply, apply_smul]

end AngularMotion.Quaternion
