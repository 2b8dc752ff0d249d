import AngularMotion.Proofs.Quaternion.Hamilton
import AngularMotion.Rodrigues
import Mathlib.Tactic.FieldSimp

/-!
# Encoding and decoding

A motion to second order is a normalized quaternion with its first two derivatives; normalization
binds these (`Jet`). Encoding forms the quotient `v / (1 + w)` and its derivatives, decoding solves
for the quaternion again.

* `lift_quotient`, `liftFirst_quotient`, `liftSecond_quotient`: decoding undoes the quotient;
* `decode_encode`: decoding undoes encoding, up to the sign that was chosen;
* `jet_lift`, `velocity_decode`, `curvature_decode`: what is decoded is normalized, and its rate and
  its acceleration belong to the derivatives of its rotation, whatever the vectors are.
-/

open scoped Quaternion

namespace AngularMotion

variable {K : Type} [Field K]

/-! ## Quaternions with their derivatives -/

/-- A quaternion with two derivatives along which its norm stays one. -/
structure Quaternion.Jet (q q₁ q₂ : Quaternion K) : Prop where
  normalized : q.Normalized
  first : q.dot q₁ = 0
  second : q.dot q₂ + q₁.dot q₁ = 0

section Jet

variable {q q₁ q₂ : Quaternion K}

/-- The first derivative over the quaternion is a vector. -/
theorem Quaternion.Jet.hamilton_first (h : q.Jet q₁ q₂) :
    (q₁.product q.conjugate).v.hamilton = q₁.hamilton * star q.hamilton := by
  rw [Quaternion.hamilton_v, Quaternion.w_product_conjugate, h.first]
  simp

/-- The second derivative over the quaternion is a vector less the square of the speed. -/
theorem Quaternion.Jet.hamilton_second (h : q.Jet q₁ q₂) :
    (q₂.product q.conjugate).v.hamilton
      = q₂.hamilton * star q.hamilton + q₁.hamilton * star q₁.hamilton := by
  have hw : q.dot q₂ = -q₁.normSq := eq_neg_of_add_eq_zero_left h.second
  rw [Quaternion.hamilton_v, Quaternion.w_product_conjugate, hw, ← Quaternion.coe_normSq]
  simp

/-- The quaternion and its first derivative are orthogonal. -/
theorem Quaternion.Jet.star_mul (h : q.Jet q₁ q₂) :
    star q₁.hamilton * q.hamilton = -(star q.hamilton * q₁.hamilton) := by
  have hfirst := h.first
  rw [Quaternion.dot_eq] at hfirst
  ext
  · simp
    linear_combination 2 * hfirst
  · simp
    ring
  · simp
    ring
  · simp
    ring

end Jet

/-! ## Motions and their derivatives -/

namespace Coordinates

section Formulas

variable {α : Type} [SumOfProducts α] [Zero α] [Add α] [Sub α] [Mul α] [Div α] [OfNat α 2]

/-- The derivative of the rotation: `½ (0, Ω) q`. -/
def velocity (c : Coordinates α) : Quaternion α :=
  (Quaternion.ofVector c.rate).product c.rotation / (2 : α)

/-- The second derivative of the rotation: `½ (0, Ω') q + ½ (0, Ω) q'`. -/
def curvature (c : Coordinates α) : Quaternion α :=
  ((Quaternion.ofVector c.acceleration).product c.rotation
    + (Quaternion.ofVector c.rate).product c.velocity) / (2 : α)

end Formulas

variable [CharZero K] {c : Coordinates K}

theorem jet (h : c.rotation.Normalized) : c.rotation.Jet c.velocity c.curvature where
  normalized := h
  first := by
    simp [Quaternion.dot_eq, velocity, Quaternion.product, Quaternion.ofVector, Vec3.dot_eq,
      Vec3.cross]
    ring
  second := by
    simp [Quaternion.dot_eq, curvature, velocity, Quaternion.product, Quaternion.ofVector,
      Vec3.dot_eq, Vec3.cross]
    ring

/-- The rate is read off the derivative. -/
theorem rate_of_velocity (h : c.rotation.Normalized) :
    (2 : K) • (c.velocity.product c.rotation.conjugate).v = c.rate := by
  apply Vec3.hamilton_injective
  rw [Vec3.hamilton_smul, (jet h).hamilton_first]
  simp [velocity, mul_assoc, h.hamilton_mul_star]

/-- The acceleration is read off the second derivative. -/
theorem acceleration_of_curvature (h : c.rotation.Normalized) :
    (2 : K) • (c.curvature.product c.rotation.conjugate).v = c.acceleration := by
  apply Vec3.hamilton_injective
  rw [Vec3.hamilton_smul, (jet h).hamilton_second]
  simp [curvature, velocity, add_mul, mul_assoc, h.hamilton_mul_star, h.hamilton_mul_star_mul]

end Coordinates

/-! The other way round, the rate and the acceleration that are read off belong to the derivatives. -/

section Jet

variable [CharZero K] {q q₁ q₂ : Quaternion K}

theorem Quaternion.Jet.velocity (h : q.Jet q₁ q₂) {acceleration : Vec3 K} :
    Coordinates.velocity ⟨q, (2 : K) • (q₁.product q.conjugate).v, acceleration⟩ = q₁ := by
  apply Quaternion.hamilton_injective
  simp [Coordinates.velocity, h.hamilton_first, mul_assoc, h.normalized.star_mul_hamilton]

theorem Quaternion.Jet.curvature (h : q.Jet q₁ q₂) :
    Coordinates.curvature ⟨q, (2 : K) • (q₁.product q.conjugate).v,
      (2 : K) • (q₂.product q.conjugate).v⟩ = q₂ := by
  apply Quaternion.hamilton_injective
  rw [Coordinates.curvature, h.velocity]
  -- What the square of the speed adds is what turning the rate along takes away.
  simp [h.hamilton_first, h.hamilton_second, add_mul, mul_assoc, h.normalized.star_mul_hamilton,
    h.star_mul]

end Jet

namespace Rodrigues

/-! ## The two directions -/

section Formulas

variable {α : Type} [SumOfProducts α] [One α] [Add α] [Sub α] [Mul α] [Neg α] [Div α] [OfNat α 2]

/-- The vector part over one plus the scalar part, differentiated twice. -/
def quotient (q q₁ q₂ : Quaternion α) : Rodrigues α :=
  let k := 1 / (1 + q.w)
  let r := k • q.v
  let r₁ := k • (q₁.v - q₁.w • r)
  ⟨r, r₁, k • (q₂.v - q₁.w • ((2 : α) • r₁) - q₂.w • r)⟩

/-- Twice the reciprocal of `1 + r²`, which is one plus the scalar part. -/
def gain (r : Rodrigues α) : α := 2 / (1 + r.value.dot r.value)

def gainFirst (r : Rodrigues α) : α := -r.gain * r.gain * r.value.dot r.first

def gainSecond (r : Rodrigues α) : α :=
  -2 * r.gain * r.gainFirst * r.value.dot r.first
    - r.gain * r.gain * (r.first.dot r.first + r.value.dot r.second)

/-- The quaternion that is decoded. -/
def lift (r : Rodrigues α) : Quaternion α := ⟨r.gain - 1, r.gain • r.value⟩

def liftFirst (r : Rodrigues α) : Quaternion α :=
  ⟨r.gainFirst, r.gainFirst • r.value + r.gain • r.first⟩

def liftSecond (r : Rodrigues α) : Quaternion α :=
  ⟨r.gainSecond,
    r.gainSecond • r.value + (2 * r.gainFirst) • r.first + r.gain • r.second⟩

end Formulas

theorem decode_eq (r : Rodrigues K) :
    r.decode = ⟨r.lift, (2 : K) • (r.liftFirst.product r.lift.conjugate).v,
      (2 : K) • (r.liftSecond.product r.lift.conjugate).v⟩ := rfl

/-! ## Decoding undoes the quotient -/

section Quotient

variable [CharZero K] {q q₁ q₂ : Quaternion K}

theorem gain_quotient (h : q.Jet q₁ q₂) (hw : 1 + q.w ≠ 0) : (quotient q q₁ q₂).gain = 1 + q.w := by
  have hq := Quaternion.normalized_iff.mp h.normalized
  have hsum : (1 + q.w) * (1 + (quotient q q₁ q₂).value.dot (quotient q q₁ q₂).value) = 2 := by
    simp only [quotient, Vec3.dot_eq, Vec3.smul_x, Vec3.smul_y, Vec3.smul_z]
    field_simp
    linear_combination hq
  have hne : 1 + (quotient q q₁ q₂).value.dot (quotient q q₁ q₂).value ≠ 0 := by
    intro h0
    rw [h0, mul_zero] at hsum
    exact two_ne_zero hsum.symm
  rw [gain, div_eq_iff hne, hsum]

theorem lift_quotient (h : q.Jet q₁ q₂) (hw : 1 + q.w ≠ 0) : (quotient q q₁ q₂).lift = q := by
  ext <;> simp only [lift, gain_quotient h hw] <;> simp [quotient] <;> field_simp

theorem gainFirst_quotient (h : q.Jet q₁ q₂) (hw : 1 + q.w ≠ 0) :
    (quotient q q₁ q₂).gainFirst = q₁.w := by
  have hq := Quaternion.normalized_iff.mp h.normalized
  have hq₁ := h.first
  rw [Quaternion.dot_eq] at hq₁
  rw [gainFirst, gain_quotient h hw]
  simp only [quotient, Vec3.dot_eq, Vec3.smul_x, Vec3.smul_y, Vec3.smul_z, Vec3.sub_x, Vec3.sub_y,
    Vec3.sub_z]
  field_simp
  linear_combination -hq₁ * (1 + q.w) + q₁.w * hq

theorem liftFirst_quotient (h : q.Jet q₁ q₂) (hw : 1 + q.w ≠ 0) :
    (quotient q q₁ q₂).liftFirst = q₁ := by
  ext <;> simp only [liftFirst, gainFirst_quotient h hw, gain_quotient h hw] <;>
    simp [quotient] <;> field_simp <;> ring

theorem gainSecond_quotient (h : q.Jet q₁ q₂) (hw : 1 + q.w ≠ 0) :
    (quotient q q₁ q₂).gainSecond = q₂.w := by
  have hq := Quaternion.normalized_iff.mp h.normalized
  have hq₁ := h.first
  have hq₂ := h.second
  rw [Quaternion.dot_eq] at hq₁
  rw [Quaternion.dot_eq, Quaternion.dot_eq] at hq₂
  rw [gainSecond, gainFirst_quotient h hw, gain_quotient h hw]
  simp only [quotient, Vec3.dot_eq, Vec3.smul_x, Vec3.smul_y, Vec3.smul_z, Vec3.sub_x, Vec3.sub_y,
    Vec3.sub_z]
  field_simp
  linear_combination -(1 + q.w) ^ 2 * hq₂ + (1 + q.w) * q₂.w * hq
    + 2 * q₁.w * (1 + q.w) * hq₁ - q₁.w ^ 2 * hq

theorem liftSecond_quotient (h : q.Jet q₁ q₂) (hw : 1 + q.w ≠ 0) :
    (quotient q q₁ q₂).liftSecond = q₂ := by
  ext <;> simp only [liftSecond, gainSecond_quotient h hw, gainFirst_quotient h hw,
    gain_quotient h hw] <;> simp [quotient] <;> field_simp <;> ring

end Quotient

/-! ## Encoding and decoding of motions -/

section Motion

variable [CharZero K] {c : Coordinates K}

theorem decode_quotient (h : c.rotation.Normalized) (hw : 1 + c.rotation.w ≠ 0) :
    (quotient c.rotation c.velocity c.curvature).decode = c := by
  have hjet := Coordinates.jet h
  rw [decode_eq, lift_quotient hjet hw, liftFirst_quotient hjet hw, liftSecond_quotient hjet hw,
    Coordinates.rate_of_velocity h, Coordinates.acceleration_of_curvature h]

omit [CharZero K] in
theorem encode_eq (c : Coordinates K) (sign : K) :
    encode c sign =
      let signed : Coordinates K := ⟨sign • c.rotation, c.rate, c.acceleration⟩
      quotient signed.rotation signed.velocity signed.curvature := rfl

/-- Decoding undoes encoding, with the representative that the sign chose. -/
theorem decode_encode (h : c.rotation.Normalized) {sign : K} (hsign : sign * sign = 1)
    (hw : 1 + sign * c.rotation.w ≠ 0) :
    (encode c sign).decode = ⟨sign • c.rotation, c.rate, c.acceleration⟩ := by
  rw [encode_eq]
  have hsigned : (sign • c.rotation).Normalized := h.smul hsign
  exact decode_quotient (c := ⟨sign • c.rotation, c.rate, c.acceleration⟩) hsigned hw

end Motion

/-! ## What is decoded -/

section Lift

variable [LinearOrder K] [IsStrictOrderedRing K] (r : Rodrigues K)

theorem one_add_dot_pos : 0 < 1 + r.value.dot r.value := by
  rw [Vec3.dot_eq]
  nlinarith [mul_self_nonneg r.value.x, mul_self_nonneg r.value.y, mul_self_nonneg r.value.z]

theorem gain_mul : r.gain * (1 + r.value.dot r.value) = 2 := by
  rw [gain, div_mul_cancel₀ _ (one_add_dot_pos r).ne']

/-- What is decoded is normalized, and so are its derivatives. -/
theorem jet_lift : r.lift.Jet r.liftFirst r.liftSecond where
  normalized := by
    have hk := gain_mul r
    rw [Vec3.dot_eq] at hk
    rw [Quaternion.normalized_iff]
    simp only [lift, Vec3.smul_x, Vec3.smul_y, Vec3.smul_z]
    linear_combination r.gain * hk
  first := by
    have hk := gain_mul r
    rw [Vec3.dot_eq] at hk
    simp only [Quaternion.dot_eq, lift, liftFirst, gainFirst, Vec3.dot_eq, Vec3.smul_x,
      Vec3.smul_y, Vec3.smul_z, Vec3.add_x, Vec3.add_y, Vec3.add_z]
    linear_combination -r.gain * r.gain * (r.value.x * r.first.x + r.value.y * r.first.y
      + r.value.z * r.first.z) * hk
  second := by
    have hk := gain_mul r
    have hk₁ : r.gainFirst = -r.gain * r.gain * r.value.dot r.first := rfl
    have hk₂ : r.gainSecond = -2 * r.gain * r.gainFirst * r.value.dot r.first
      - r.gain * r.gain * (r.first.dot r.first + r.value.dot r.second) := rfl
    simp only [Vec3.dot_eq] at hk hk₁ hk₂
    set s := r.value.x * r.first.x + r.value.y * r.first.y + r.value.z * r.first.z
    set size := r.value.x * r.value.x + r.value.y * r.value.y + r.value.z * r.value.z
    simp only [Quaternion.dot_eq, lift, liftFirst, liftSecond, Vec3.smul_x, Vec3.smul_y,
      Vec3.smul_z, Vec3.add_x, Vec3.add_y, Vec3.add_z]
    linear_combination (r.gainSecond - r.gainFirst * r.gain * s) * hk
      + r.gainFirst * (1 + size) * hk₁ + hk₂

/-- The rate that is decoded belongs to the derivative of the rotation that is decoded. -/
theorem velocity_decode : r.decode.velocity = r.liftFirst :=
  (jet_lift r).velocity

/-- The acceleration that is decoded belongs to its second derivative. -/
theorem curvature_decode : r.decode.curvature = r.liftSecond :=
  (jet_lift r).curvature

end Lift

end Rodrigues

end AngularMotion
