import AngularMotion.Coordinates
import AngularMotion.Proofs.Quaternion.Rotation

/-!
# Offsets of motions

For normalized rotations, and any rates and accelerations, adding offsets is associative
(`addOffset_assoc`), a motion at rest is neutral, and a motion is undone by its reverse
(`revert_addOffset`). So an offset that is taken from a motion and added again gives the motion back
(`subtractOffset_addOffset`). The choice of the representative of a rotation commutes with adding an
offset (`withSign_addOffset`).

A motion moves on by the exponential of its evolution (`shiftedBy_exact`), and without acceleration
along the exponential of its rate (`shiftedBy_spin`).
-/

namespace AngularMotion.Coordinates

/-- The same motion with a representative of its rotation. -/
def withSign (sign : ℝ) (c : Coordinates ℝ) : Coordinates ℝ :=
  ⟨sign • c.rotation, c.rate, c.acceleration⟩

variable {a b c : Coordinates ℝ}

/-! ## Laws of composition -/

theorem addOffset_assoc (ha : a.rotation.Normalized) (hb : b.rotation.Normalized) :
    (a.addOffset b).addOffset c = a.addOffset (b.addOffset c) := by
  have hvector : ∀ u v w : Vec3 ℝ,
      u + a.rotation.apply v + (a.rotation.compose b.rotation).apply w
        = u + a.rotation.apply (v + b.rotation.apply w) := by
    intro u v w
    rw [ha.apply_compose hb, Quaternion.apply_add, Vec3.add_assoc]
  simp only [addOffset, Quaternion.compose_assoc, hvector]

theorem rest_addOffset (ha : a.rotation.Normalized) :
    (⟨⟨1, 0⟩, 0, 0⟩ : Coordinates ℝ).addOffset a = a := by
  simp only [addOffset, ha.one_compose, Quaternion.one_apply, Vec3.zero_add]

theorem addOffset_rest (ha : a.rotation.Normalized) : a.addOffset ⟨⟨1, 0⟩, 0, 0⟩ = a := by
  simp only [addOffset, ha.compose_one, Quaternion.apply_zero, Vec3.add_zero]

/-- A motion is undone by its reverse. -/
theorem revert_addOffset (ha : a.rotation.Normalized) : a.revert.addOffset a = ⟨⟨1, 0⟩, 0, 0⟩ := by
  have hvector : ∀ u : Vec3 ℝ, a.rotation.applyInverse (-u) + a.rotation.inverse.apply u = 0 := by
    intro u
    rw [ha.apply_inverse, Quaternion.applyInverse, Quaternion.applyInverse, Quaternion.apply_neg,
      Vec3.neg_add_self]
  simp only [addOffset, revert, ha.inverse_compose, hvector]

/-- An offset that was taken is added again. -/
theorem subtractOffset_addOffset (ha : a.rotation.Normalized) (hb : b.rotation.Normalized) :
    (a.subtractOffset b).addOffset b = a := by
  have hreverse : b.revert.rotation.Normalized := hb.inverse
  rw [subtractOffset, addOffset_assoc ha hreverse, revert_addOffset hb, addOffset_rest ha]

/-! ## Representatives -/

/-- Both representatives of a rotation take an offset in the same way. -/
theorem withSign_addOffset {sign : ℝ} (hsign : sign * sign = 1) (ha : a.rotation.Normalized)
    (hb : b.rotation.Normalized) :
    (a.withSign sign).addOffset b = (a.addOffset b).withSign sign := by
  apply Coordinates.ext
  · apply Quaternion.hamilton_injective
    simp only [addOffset, withSign, (ha.smul hsign).hamilton_compose hb, Quaternion.hamilton_smul,
      ha.hamilton_compose hb, smul_mul_assoc]
  · simp only [addOffset, withSign, Quaternion.smul_apply hsign]
  · simp only [addOffset, withSign, Quaternion.smul_apply hsign]

/-! ## Moving on -/

/-- The rotation vector that a motion moves on by. -/
def evolution {α : Type} [Add α] [Mul α] [Div α] [OfNat α 2] (c : Coordinates α) (dt : α) : Vec3 α :=
  dt • c.rate + dt • (dt • (c.acceleration / (2 : α)))

theorem shiftedBy_exact (ε : ℝ) (c : Coordinates ℝ) (dt : ℝ) :
    c.shiftedBy (.exact ε) dt
      = ⟨(Quaternion.exp (c.evolution dt)).compose c.rotation, c.rate + dt • c.acceleration,
        c.acceleration⟩ := rfl

/-- Without acceleration the rate stays, and the rotation follows its exponential. -/
theorem shiftedBy_spin (ε : ℝ) (h : c.acceleration = 0) (dt : ℝ) :
    c.shiftedBy (.exact ε) dt
      = ⟨(Quaternion.exp (dt • c.rate)).compose c.rotation, c.rate, 0⟩ := by
  rw [shiftedBy_exact, evolution, h]
  simp only [Vec3.zero_div, Vec3.smul_zero, Vec3.add_zero]

theorem shiftedBy_zero (ε : ℝ) (hc : c.rotation.Normalized) : c.shiftedBy (.exact ε) 0 = c := by
  rw [shiftedBy_exact, evolution]
  simp only [Vec3.zero_smul, Vec3.add_zero, Quaternion.exp_zero, hc.one_compose]

end AngularMotion.Coordinates
