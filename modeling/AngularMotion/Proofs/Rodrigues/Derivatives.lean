import AngularMotion.Proofs.Kinematics
import AngularMotion.Proofs.Rodrigues.RoundTrip

/-!
# Rodrigues vectors in time

The rows of a Rodrigues vector are the derivatives of one another, both ways
(`derivatives_both_ways`). Away from the singularity a motion in time is encoded to a vector in time
with its two derivatives, since the quotient has the derivatives that it is given
(`hasDerivAt_quotient_value`, `hasDerivAt_quotient_first`). A vector in time with its two derivatives
is decoded to a motion with its rate and its acceleration, since the lift has the derivatives that it
is given (`hasDerivAt_lift`, `hasDerivAt_liftFirst`).
-/

open scoped Quaternion

namespace AngularMotion

namespace Rodrigues

/-- At an instant each row is the derivative of the row before it. -/
structure DerivesAt (r : ℝ → Rodrigues ℝ) (t : ℝ) : Prop where
  value : HasDerivAt (fun s => (r s).value.hamilton) (r t).first.hamilton t
  first : HasDerivAt (fun s => (r s).first.hamilton) (r t).second.hamilton t

/-! ## Quotients -/

section Quotient

variable {q q₁ q₂ : ℝ → Quaternion ℝ} {t : ℝ}

theorem hasDerivAt_factor (h : HasDerivAt (fun s => (q s).hamilton) (q₁ t).hamilton t)
    (hw : 1 + (q t).w ≠ 0) :
    HasDerivAt (fun s => 1 / (1 + (q s).w))
      (-(1 / (1 + (q t).w) * (q₁ t).w * (1 / (1 + (q t).w)))) t := by
  have hsum := (Quaternion.hasDerivAt_w h).const_add (1 : ℝ)
  refine ((hasDerivAt_const t (1 : ℝ)).fun_div hsum hw).congr_deriv ?_
  field_simp
  ring

variable (q₂) in
theorem hasDerivAt_quotient_value (h : HasDerivAt (fun s => (q s).hamilton) (q₁ t).hamilton t)
    (hw : 1 + (q t).w ≠ 0) :
    HasDerivAt (fun s => (quotient (q s) (q₁ s) (q₂ s)).value.hamilton)
      (quotient (q t) (q₁ t) (q₂ t)).first.hamilton t := by
  have hproduct := (hasDerivAt_factor h hw).fun_smul (Quaternion.hasDerivAt_v h)
  simp only [quotient, Vec3.hamilton_smul, Vec3.hamilton_sub]
  refine hproduct.congr_deriv ?_
  module

theorem hasDerivAt_quotient_first (h : HasDerivAt (fun s => (q s).hamilton) (q₁ t).hamilton t)
    (h₁ : HasDerivAt (fun s => (q₁ s).hamilton) (q₂ t).hamilton t) (hw : 1 + (q t).w ≠ 0) :
    HasDerivAt (fun s => (quotient (q s) (q₁ s) (q₂ s)).first.hamilton)
      (quotient (q t) (q₁ t) (q₂ t)).second.hamilton t := by
  have hvalue := hasDerivAt_quotient_value q₂ h hw
  have hturned := (Quaternion.hasDerivAt_w h₁).fun_smul hvalue
  have hproduct := (hasDerivAt_factor h hw).fun_smul ((Quaternion.hasDerivAt_v h₁).fun_sub hturned)
  simp only [quotient, Vec3.hamilton_smul, Vec3.hamilton_sub] at hproduct ⊢
  refine hproduct.congr_deriv ?_
  module

end Quotient

/-! ## Encoded motions -/

/-- Encoding forms the quotient of the representative that the sign chooses. -/
theorem encode_smul {K : Type} [Field K] (c : Coordinates K) (sign : K) :
    encode c sign = quotient (sign • c.rotation) (sign • c.velocity) (sign • c.curvature) := by
  have hvelocity : Coordinates.velocity ⟨sign • c.rotation, c.rate, c.acceleration⟩
      = sign • c.velocity := by
    apply Quaternion.hamilton_injective
    simp [Coordinates.velocity, smul_comm sign]
  have hcurvature : Coordinates.curvature ⟨sign • c.rotation, c.rate, c.acceleration⟩
      = sign • c.curvature := by
    apply Quaternion.hamilton_injective
    rw [Coordinates.curvature, hvelocity]
    simp [Coordinates.curvature, smul_comm sign]
  rw [encode_eq]
  simp only [hvelocity, hcurvature]

/-- A motion in time is encoded with its derivatives, by either representative. -/
theorem derivesAt_encode {c : ℝ → Coordinates ℝ} {sign t : ℝ} (hc : Coordinates.AcceleratedAt c t)
    (hw : sign * (c t).rotation.w ≠ -1) : DerivesAt (fun s => encode (c s) sign) t := by
  have hsum : 1 + (sign • (c t).rotation).w ≠ 0 :=
    fun hzero => hw (eq_neg_of_add_eq_zero_right hzero)
  have hrotation := hc.rotation.const_smul sign
  have hvelocity := hc.velocity.const_smul sign
  simp only [← Quaternion.hamilton_smul] at hrotation hvelocity
  constructor
  · simp only [encode_smul]
    exact hasDerivAt_quotient_value _ hrotation hsum
  · simp only [encode_smul]
    exact hasDerivAt_quotient_first hrotation hvelocity hsum

/-! ## Decoded motions -/

section Lift

variable {r : ℝ → Rodrigues ℝ} {t : ℝ}

theorem hasDerivAt_gain
    (hr : HasDerivAt (fun s => (r s).value.hamilton) (r t).first.hamilton t) :
    HasDerivAt (fun s => (r s).gain) (r t).gainFirst t := by
  have hdot : HasDerivAt (fun s => 1 + (r s).value.dot (r s).value)
      (2 * (r t).value.dot (r t).first) t := by
    have hinner := (hr.inner ℝ hr).const_add (1 : ℝ)
    simp only [Vec3.inner_hamilton] at hinner
    refine hinner.congr_deriv ?_
    rw [Vec3.dot_eq, Vec3.dot_eq]
    ring
  have hpos : 1 + (r t).value.dot (r t).value ≠ 0 := (one_add_dot_pos (r t)).ne'
  refine ((hasDerivAt_const t (2 : ℝ)).fun_div hdot hpos).congr_deriv ?_
  rw [gainFirst, gain]
  field_simp
  ring

theorem hasDerivAt_lift
    (hr : HasDerivAt (fun s => (r s).value.hamilton) (r t).first.hamilton t) :
    HasDerivAt (fun s => (r s).lift.hamilton) (r t).liftFirst.hamilton t := by
  have hlift : ∀ s, (r s).lift.hamilton = (r s).gain • (1 + (r s).value.hamilton) - 1 := by
    intro s
    ext <;> simp [lift]
  simp only [hlift]
  have hproduct := (hasDerivAt_gain hr).fun_smul (hr.const_add 1)
  refine (hproduct.sub_const 1).congr_deriv ?_
  ext <;> simp [liftFirst] <;> ring

theorem DerivesAt.gainFirst (hr : DerivesAt r t) :
    HasDerivAt (fun s => (r s).gainFirst) (r t).gainSecond t := by
  have hgain := hasDerivAt_gain hr.value
  have hinner := hr.value.inner ℝ hr.first
  simp only [Vec3.inner_hamilton] at hinner
  refine ((hgain.fun_neg.fun_mul hgain).fun_mul hinner).congr_deriv ?_
  rw [gainSecond]
  ring

theorem DerivesAt.liftFirst (hr : DerivesAt r t) :
    HasDerivAt (fun s => (r s).liftFirst.hamilton) (r t).liftSecond.hamilton t := by
  have hlift : ∀ s, (r s).liftFirst.hamilton
      = (r s).gainFirst • (1 + (r s).value.hamilton) + (r s).gain • (r s).first.hamilton := by
    intro s
    ext <;> simp [Rodrigues.liftFirst]
  simp only [hlift]
  have hproducts := (hr.gainFirst.fun_smul (hr.value.const_add 1)).fun_add
    ((hasDerivAt_gain hr.value).fun_smul hr.first)
  refine hproducts.congr_deriv ?_
  ext <;> simp [liftSecond] <;> ring

theorem kinematicAt_decode
    (hr : HasDerivAt (fun s => (r s).value.hamilton) (r t).first.hamilton t) :
    Coordinates.KinematicAt (fun s => (r s).decode) t where
  normalized := (jet_lift (r t)).normalized
  rotation := by
    rw [velocity_decode]
    exact hasDerivAt_lift hr

/-- A vector in time with its two derivatives is decoded to a motion with its acceleration. -/
theorem DerivesAt.decode (hr : DerivesAt r t) :
    Coordinates.AcceleratedAt (fun s => (r s).decode) t where
  toKinematicAt := kinematicAt_decode hr.value
  rate := by
    have hrate : ∀ s, (r s).decode.rate.hamilton
        = (2 : ℝ) • ((r s).liftFirst.hamilton * star (r s).lift.hamilton) := by
      intro s
      rw [decode_eq, Vec3.hamilton_smul, (jet_lift (r s)).hamilton_first]
    simp only [hrate]
    have hproduct := hr.liftFirst.fun_mul (hasDerivAt_lift hr.value).star
    refine (hproduct.const_smul (2 : ℝ)).congr_deriv ?_
    rw [decode_eq, Vec3.hamilton_smul, (jet_lift (r t)).hamilton_second]

end Lift

/-! ## Both ways -/

/-- A motion in time is encoded to `v / (1 + w)` and its derivatives, wherever the sign keeps it off
the singularity. A vector with its derivatives is decoded to a motion in time that has this quotient. -/
theorem derivatives_both_ways :
    (∀ (c : ℝ → Coordinates ℝ) (sign t : ℝ), Coordinates.AcceleratedAt c t →
        sign * (c t).rotation.w ≠ -1 →
          (∀ s, (encode (c s) sign).value
            = (1 / (1 + sign * (c s).rotation.w)) • sign • (c s).rotation.v)
          ∧ DerivesAt (fun s => encode (c s) sign) t)
      ∧ ∀ (r : ℝ → Rodrigues ℝ) (t : ℝ), DerivesAt r t →
        (∀ s, (1 / (1 + (r s).decode.rotation.w)) • (r s).decode.rotation.v = (r s).value)
          ∧ Coordinates.AcceleratedAt (fun s => (r s).decode) t :=
  ⟨fun _ _ _ hc hw => ⟨fun _ => rfl, derivesAt_encode hc hw⟩,
    fun r _ hr => ⟨fun s => congrArg value (quotient_lift (r s)), hr.decode⟩⟩

/-- A vector on a parabola. -/
def parabola {α : Type} [Zero α] [One α] [Mul α] [OfNat α 2] (t : α) : Rodrigues α :=
  ⟨⟨t, t * t, 0⟩, ⟨1, 2 * t, 0⟩, ⟨0, 2, 0⟩⟩

theorem derivesAt_parabola (t : ℝ) : DerivesAt parabola t where
  value := by
    refine Vec3.hasDerivAt_hamilton (hasDerivAt_id t) ?_ (hasDerivAt_const t 0)
    refine ((hasDerivAt_id t).fun_mul (hasDerivAt_id t)).congr_deriv ?_
    simp [parabola]
    ring
  first := by
    refine Vec3.hasDerivAt_hamilton (hasDerivAt_const t 1) ?_ (hasDerivAt_const t 0)
    refine ((hasDerivAt_id t).const_mul (2 : ℝ)).congr_deriv ?_
    simp [parabola]

/-- A spin about the third axis from a tilt on, encoded by the other representative, and a vector on
a parabola. -/
theorem derivatives_spin_parabola :
    DerivesAt (fun s => encode ⟨(Quaternion.exp (s • ⟨0, 0, 1⟩)).compose .tilt, ⟨0, 0, 1⟩, 0⟩ (-1)) 0
      ∧ Coordinates.AcceleratedAt (fun s => (parabola s).decode) 1 := by
  have hspin := Coordinates.accelerated_spin Quaternion.normalized_tilt ⟨0, 0, 1⟩
  refine ⟨(derivatives_both_ways.1 _ (-1) 0 (hspin.acceleratedAt 0) ?_).2,
    (derivatives_both_ways.2 parabola 1 (derivesAt_parabola 1)).2⟩
  rw [Vec3.zero_smul, Quaternion.exp_zero, Quaternion.normalized_tilt.one_compose, Quaternion.tilt]
  norm_num

end Rodrigues

/-- A differentiable vector is decoded to a kinematic motion. -/
theorem Coordinates.kinematic_decode {r : ℝ → Rodrigues ℝ}
    (hr : ∀ t, HasDerivAt (fun s => (r s).value.hamilton) (r t).first.hamilton t) :
    Kinematic fun t => (r t).decode :=
  .of_forall fun t => Rodrigues.kinematicAt_decode (hr t)

end AngularMotion
