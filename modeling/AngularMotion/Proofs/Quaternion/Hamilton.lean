import AngularMotion.Exact
import Mathlib.Algebra.Quaternion

/-!
# Quaternions as a ring

Quaternions and vectors over a commutative ring `R` are read as elements of the ring `ℍ[R]`, where
calculations are done with the laws of rings in place of components.

* `hamilton_product`, `hamilton_conjugate`: the product and the conjugate are those of the ring;
* `Quaternion.hamilton_rotate`: the expanded rotation formula is the product `q u q*`, for every
  normalized `q`.
-/

open scoped Quaternion

namespace AngularMotion

variable {R : Type} [CommRing R]

/-! ## Vectors -/

namespace Vec3

/-- A vector as a quaternion without real part. -/
def hamilton (u : Vec3 R) : ℍ[R] := ⟨0, u.x, u.y, u.z⟩

variable (a b u : Vec3 R) (k : R)

@[simp] theorem re_hamilton : u.hamilton.re = 0 := rfl
@[simp] theorem imI_hamilton : u.hamilton.imI = u.x := rfl
@[simp] theorem imJ_hamilton : u.hamilton.imJ = u.y := rfl
@[simp] theorem imK_hamilton : u.hamilton.imK = u.z := rfl

theorem hamilton_injective : Function.Injective (hamilton : Vec3 R → ℍ[R]) := by
  intro a b h
  obtain ⟨ax, ay, az⟩ := a
  obtain ⟨bx, by', bz⟩ := b
  cases h
  rfl

@[simp] theorem hamilton_zero : (0 : Vec3 R).hamilton = 0 := rfl

@[simp] theorem hamilton_add : (a + b).hamilton = a.hamilton + b.hamilton := by
  ext <;> simp

@[simp] theorem hamilton_neg : (-u).hamilton = -u.hamilton := by
  ext <;> simp

@[simp] theorem hamilton_sub : (a - b).hamilton = a.hamilton - b.hamilton := by
  ext <;> simp

@[simp] theorem hamilton_smul : (k • u).hamilton = k • u.hamilton := by
  ext <;> simp

@[simp] theorem star_hamilton : star u.hamilton = -u.hamilton := by
  ext <;> simp

@[simp] theorem add_zero : u + 0 = u := by
  ext <;> simp

@[simp] theorem zero_add : 0 + u = u := by
  ext <;> simp

protected theorem add_assoc : a + b + u = a + (b + u) := by
  ext <;> simp <;> ring

theorem neg_add_self : -u + u = 0 := by
  ext <;> simp

@[simp] theorem zero_smul : (0 : R) • u = 0 := by
  ext <;> simp

@[simp] theorem smul_zero : k • (0 : Vec3 R) = 0 := by
  ext <;> simp

protected theorem smul_smul (j k : R) (u : Vec3 R) : j • k • u = (j * k) • u := by
  ext <;> simp [mul_assoc]

theorem sub_eq_zero_iff : a - b = 0 ↔ a = b := by
  simp [Vec3.ext_iff, sub_eq_zero]

theorem dot_eq : a.dot b = a.x * b.x + a.y * b.y + a.z * b.z := by
  simp [dot, SumOfProducts.sumOfProducts]
  ring

end Vec3

/-! ## Quaternions -/

namespace Quaternion

def hamilton (q : Quaternion R) : ℍ[R] := ⟨q.w, q.v.x, q.v.y, q.v.z⟩

variable (a b q : Quaternion R) (k : R)

@[simp] theorem re_hamilton : q.hamilton.re = q.w := rfl
@[simp] theorem imI_hamilton : q.hamilton.imI = q.v.x := rfl
@[simp] theorem imJ_hamilton : q.hamilton.imJ = q.v.y := rfl
@[simp] theorem imK_hamilton : q.hamilton.imK = q.v.z := rfl

theorem hamilton_injective : Function.Injective (hamilton : Quaternion R → ℍ[R]) := by
  intro a b h
  obtain ⟨aw, ax, ay, az⟩ := a
  obtain ⟨bw, bx, by', bz⟩ := b
  cases h
  rfl

theorem hamilton_eq_zero_iff {q : Quaternion R} : q.hamilton = 0 ↔ q = ⟨0, 0⟩ :=
  hamilton_injective.eq_iff' rfl

@[simp] theorem hamilton_ofVector (u : Vec3 R) : (ofVector u).hamilton = u.hamilton := rfl

@[simp] theorem hamilton_add : (a + b).hamilton = a.hamilton + b.hamilton := by
  ext <;> simp

@[simp] theorem hamilton_neg : (-q).hamilton = -q.hamilton := by
  ext <;> simp

@[simp] theorem hamilton_smul : (k • q).hamilton = k • q.hamilton := by
  ext <;> simp

theorem dot_eq :
    a.dot b = a.w * b.w + a.v.x * b.v.x + a.v.y * b.v.y + a.v.z * b.v.z := by
  simp [dot, SumOfProducts.sumOfProducts]
  ring

@[simp] theorem one_smul : (1 : R) • q = q := by
  ext <;> simp

protected theorem neg_neg : - -q = q := by
  ext <;> simp

theorem smul_dot (j k : R) (a b : Quaternion R) : (j • a).dot (k • b) = j * k * a.dot b := by
  simp only [dot_eq, smul_w, smul_v, Vec3.smul_x, Vec3.smul_y, Vec3.smul_z]
  ring

@[simp] theorem hamilton_product : (a.product b).hamilton = a.hamilton * b.hamilton := by
  ext <;> simp [product, Vec3.dot_eq, Vec3.cross] <;> ring

@[simp] theorem hamilton_conjugate : q.conjugate.hamilton = star q.hamilton := by
  ext <;> simp [conjugate]

theorem conjugate_w : q.conjugate.w = q.w := one_mul q.w

theorem conjugate_v : q.conjugate.v = -q.v := by
  ext <;> simp [conjugate]

theorem hamilton_v : q.v.hamilton = q.hamilton - ((q.w : R) : ℍ[R]) := by
  ext <;> simp

theorem w_product_conjugate : (a.product b.conjugate).w = b.dot a := by
  simp [product, conjugate, Vec3.dot_eq, dot_eq]
  ring

theorem coe_normSq : ((q.normSq : R) : ℍ[R]) = q.hamilton * star q.hamilton := by
  ext <;> simp [normSq, dot_eq] <;> ring

/-! ## Normalized quaternions -/

/-- The squares of the components add up to one. -/
def Normalized (q : Quaternion R) : Prop := q.normSq = 1

variable {q}

theorem normalized_iff :
    q.Normalized ↔ q.w * q.w + q.v.x * q.v.x + q.v.y * q.v.y + q.v.z * q.v.z = 1 := by
  rw [Normalized, normSq, dot_eq]

theorem normalized_iff_mul_star : q.Normalized ↔ q.hamilton * star q.hamilton = 1 := by
  rw [← coe_normSq, Normalized]
  exact ⟨fun hq => by rw [hq, Quaternion.coe_one], fun hq => by
    simpa using congrArg (·.re) hq⟩

theorem Normalized.hamilton_mul_star (h : q.Normalized) : q.hamilton * star q.hamilton = 1 :=
  normalized_iff_mul_star.mp h

theorem Normalized.hamilton_mul_star_mul (h : q.Normalized) (x : ℍ[R]) :
    q.hamilton * (star q.hamilton * x) = x := by
  rw [← mul_assoc, h.hamilton_mul_star, one_mul]

theorem Normalized.star_mul_hamilton (h : q.Normalized) : star q.hamilton * q.hamilton = 1 := by
  rw [Quaternion.star_mul_self, ← h.hamilton_mul_star, Quaternion.self_mul_star]

theorem Normalized.star_mul_hamilton_mul (h : q.Normalized) (x : ℍ[R]) :
    star q.hamilton * (q.hamilton * x) = x := by
  rw [← mul_assoc, h.star_mul_hamilton, one_mul]

theorem hamilton_rotate (h : q.Normalized) (u : Vec3 R) :
    (q.rotate u).hamilton = q.hamilton * u.hamilton * star q.hamilton := by
  rw [normalized_iff] at h
  ext
  · simp
    ring
  · simp [rotate, Vec3.cross]
    linear_combination -u.x * h
  · simp [rotate, Vec3.cross]
    linear_combination -u.y * h
  · simp [rotate, Vec3.cross]
    linear_combination -u.z * h

theorem Normalized.smul (h : q.Normalized) {sign : R} (hsign : sign * sign = 1) :
    (sign • q).Normalized := by
  rw [normalized_iff] at h ⊢
  simp only [smul_w, smul_v, Vec3.smul_x, Vec3.smul_y, Vec3.smul_z]
  linear_combination sign * sign * h + hsign

theorem Normalized.neg (h : q.Normalized) : (-q).Normalized := by
  rw [normalized_iff] at h ⊢
  simpa using h

theorem Normalized.conjugate (h : q.Normalized) : q.conjugate.Normalized := by
  rw [normalized_iff_mul_star, hamilton_conjugate, star_star]
  exact h.star_mul_hamilton

theorem Normalized.product {a b : Quaternion R} (ha : a.Normalized) (hb : b.Normalized) :
    (a.product b).Normalized := by
  rw [normalized_iff_mul_star]
  calc
    (a.product b).hamilton * star (a.product b).hamilton
        = a.hamilton * (b.hamilton * star b.hamilton) * star a.hamilton := by
          simp [mul_assoc]
    _ = 1 := by rw [hb.hamilton_mul_star, mul_one, ha.hamilton_mul_star]

end Quaternion

/-! ## Division -/

section Field

variable {K : Type} [Field K]

@[simp] theorem Vec3.zero_div (k : K) : (0 : Vec3 K) / k = 0 := by
  ext <;> simp

@[simp] theorem Vec3.hamilton_div (u : Vec3 K) (k : K) : (u / k).hamilton = k⁻¹ • u.hamilton := by
  ext <;> simp [div_eq_inv_mul]

@[simp] theorem Quaternion.hamilton_div (q : Quaternion K) (k : K) :
    (q / k).hamilton = k⁻¹ • q.hamilton := by
  ext <;> simp [div_eq_inv_mul]

/-- Both representatives of a rotation turn vectors in the same way. -/
theorem Quaternion.smul_rotate {sign : K} (hsign : sign * sign = 1) (q : Quaternion K) (u : Vec3 K) :
    (sign • q).rotate u = q.rotate u := by
  rcases mul_self_eq_one_iff.mp hsign with rfl | rfl
  · ext <;> simp [rotate, Vec3.cross]
  · ext <;> simp [rotate, Vec3.cross] <;> ring

end Field

end AngularMotion
