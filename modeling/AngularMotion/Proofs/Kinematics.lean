import AngularMotion.Proofs.Coordinates.Offset
import AngularMotion.Proofs.Rodrigues.Inverse
import Mathlib.Analysis.Calculus.Deriv.Add
import Mathlib.Analysis.Calculus.Deriv.Inv
import Mathlib.Analysis.Calculus.Deriv.Mul
import Mathlib.Analysis.Calculus.Deriv.Star
import Mathlib.Analysis.InnerProductSpace.Calculus
import Mathlib.Analysis.SpecialFunctions.Exponential
import Mathlib.Analysis.SpecialFunctions.Sqrt

/-!
# Motions in time

A motion is kinematic if its rotation is normalized and has the derivative `½ (0, Ω) q` for its rate
`Ω`. Adding and taking offsets, reversal and moving on without acceleration give kinematic motions
again (`kinematicAt_offsets`): normalization does not disturb the derivatives of compositions
(`KinematicAt.of_normalize`).

The rate of a composition has a part in its derivative that comes from the outer motion turning the
inner rate: `hasDerivAt_rate_addOffset`.
-/

open scoped Quaternion

namespace AngularMotion

/-! ## Derivatives by components -/

instance starModule : StarModule ℝ ℍ[ℝ] := ⟨fun r q => by rw [Quaternion.star_smul, star_trivial r]⟩

theorem Vec3.hasDerivAt_hamilton {u : ℝ → Vec3 ℝ} {u' : Vec3 ℝ} {t : ℝ}
    (hx : HasDerivAt (fun s => (u s).x) u'.x t) (hy : HasDerivAt (fun s => (u s).y) u'.y t)
    (hz : HasDerivAt (fun s => (u s).z) u'.z t) :
    HasDerivAt (fun s => (u s).hamilton) u'.hamilton t := by
  let i := hamilton (⟨1, 0, 0⟩ : Vec3 ℝ)
  let j := hamilton (⟨0, 1, 0⟩ : Vec3 ℝ)
  let k := hamilton (⟨0, 0, 1⟩ : Vec3 ℝ)
  have hbasis : ∀ v : Vec3 ℝ, v.hamilton = v.x • i + v.y • j + v.z • k := by
    intro v
    ext <;> simp [i, j, k]
  simp only [hbasis]
  exact ((hx.smul_const i).add (hy.smul_const j)).add (hz.smul_const k)

namespace Quaternion

variable {q : ℝ → Quaternion ℝ} {q' : Quaternion ℝ} {t : ℝ}

theorem hasDerivAt_w (h : HasDerivAt (fun s => (q s).hamilton) q'.hamilton t) :
    HasDerivAt (fun s => (q s).w) q'.w t := by
  have hinner := h.inner ℝ (hasDerivAt_const t (1 : ℍ[ℝ]))
  simpa [Quaternion.inner_def] using hinner

theorem hasDerivAt_v (h : HasDerivAt (fun s => (q s).hamilton) q'.hamilton t) :
    HasDerivAt (fun s => (q s).v.hamilton) q'.v.hamilton t := by
  have hv : ∀ a : Quaternion ℝ, a.v.hamilton = a.hamilton - a.w • (1 : ℍ[ℝ]) := by
    intro a
    ext <;> simp
  simp only [hv]
  exact h.fun_sub ((hasDerivAt_w h).smul_const 1)

/-- Normalization does not disturb a derivative that is orthogonal to the quaternion. -/
theorem hasDerivAt_normalize (h : HasDerivAt (fun s => (q s).hamilton) q'.hamilton t)
    (hq : (q t).Normalized) (horthogonal : (q t).dot q' = 0) :
    HasDerivAt (fun s => (q s).normalize.hamilton) q'.hamilton t := by
  have hunit : ‖(q t).hamilton‖ = 1 := normalized_iff_norm.mp hq
  -- The norm stands still: its square has the derivative `2 (q · q')`.
  have hnorm : HasDerivAt (fun s => ‖(q s).hamilton‖) 0 t := by
    have hsquare := h.norm_sq
    rw [inner_hamilton, horthogonal, mul_zero] at hsquare
    have hroot := hsquare.sqrt (by rw [hunit]; norm_num)
    simpa only [Real.sqrt_sq (norm_nonneg _), zero_div] using hroot
  have hinverse : HasDerivAt (fun s => ‖(q s).hamilton‖⁻¹) 0 t := by
    simpa using hnorm.fun_inv (by rw [hunit]; exact one_ne_zero)
  simp only [normalize, norm_eq, hamilton_div]
  refine (hinverse.fun_smul h).congr_deriv ?_
  simp [hunit]

end Quaternion

namespace Coordinates

theorem hamilton_velocity (c : Coordinates ℝ) :
    c.velocity.hamilton = (1 / 2 : ℝ) • (c.rate.hamilton * c.rotation.hamilton) := by
  simp [velocity]

/-! ## Kinematic motions -/

/-- The rate is that of the rotation. -/
structure Kinematic (c : ℝ → Coordinates ℝ) : Prop where
  normalized : ∀ t, (c t).rotation.Normalized
  rotation : ∀ t, HasDerivAt (fun s => (c s).rotation.hamilton) (c t).velocity.hamilton t

/-- At an instant the rotation is normalized, and the rate is that of the rotation. -/
structure KinematicAt (c : ℝ → Coordinates ℝ) (t : ℝ) : Prop where
  normalized : (c t).rotation.Normalized
  rotation : HasDerivAt (fun s => (c s).rotation.hamilton) (c t).velocity.hamilton t

variable {a b c : ℝ → Coordinates ℝ} {t : ℝ}

theorem Kinematic.kinematicAt (hc : Kinematic c) (t : ℝ) : KinematicAt c t :=
  ⟨hc.normalized t, hc.rotation t⟩

theorem Kinematic.of_forall (h : ∀ t, KinematicAt c t) : Kinematic c :=
  ⟨fun t => (h t).normalized, fun t => (h t).rotation⟩

/-- The rate of a rotation is found before it is normalized: the kinematic derivative is orthogonal
to the rotation. -/
theorem KinematicAt.of_normalize {q : ℝ → Quaternion ℝ} (hq : (q t).Normalized)
    (hnormalize : ∀ s, (c s).rotation = (q s).normalize)
    (hrotation : HasDerivAt (fun s => (q s).hamilton) (c t).velocity.hamilton t) :
    KinematicAt c t := by
  -- At `t` itself nothing is normalized away, and so `q` is orthogonal to the velocity of `c`.
  have hstays : (c t).rotation = q t := (hnormalize t).trans hq.normalize_eq
  have hnormalized : (c t).rotation.Normalized := hstays ▸ hq
  refine ⟨hnormalized, ?_⟩
  simp only [hnormalize]
  exact Quaternion.hasDerivAt_normalize hrotation hq (hstays ▸ (jet hnormalized).first)

theorem KinematicAt.addOffset (ha : KinematicAt a t) (hb : KinematicAt b t) :
    KinematicAt (fun s => (a s).addOffset (b s)) t := by
  have hq := ha.normalized
  refine .of_normalize (hq.product hb.normalized) (fun _ => rfl) ?_
  simp only [Quaternion.hamilton_product]
  refine (ha.rotation.fun_mul hb.rotation).congr_deriv ?_
  rw [hamilton_velocity, hamilton_velocity, hamilton_velocity]
  simp only [Coordinates.addOffset, Vec3.hamilton_add, hq.hamilton_apply,
    hq.hamilton_compose hb.normalized, smul_mul_assoc, mul_smul_comm, add_mul, mul_assoc,
    hq.star_mul_hamilton_mul, smul_add]

theorem KinematicAt.hasDerivAt_star (hc : KinematicAt c t) :
    HasDerivAt (fun s => star (c s).rotation.hamilton)
      (-((1 / 2 : ℝ) • (star (c t).rotation.hamilton * (c t).rate.hamilton))) t := by
  refine hc.rotation.star.congr_deriv ?_
  simp [hamilton_velocity]

theorem KinematicAt.revert (hc : KinematicAt c t) : KinematicAt (fun s => (c s).revert) t := by
  have hq := hc.normalized
  refine .of_normalize hq.conjugate (fun s => (Quaternion.normalize_conjugate _).symm) ?_
  simp only [Quaternion.hamilton_conjugate]
  refine hc.hasDerivAt_star.congr_deriv ?_
  rw [hamilton_velocity]
  simp only [Coordinates.revert, hq.hamilton_applyInverse, hq.hamilton_inverse,
    Vec3.hamilton_neg, mul_neg, neg_mul, mul_assoc, hq.hamilton_mul_star, mul_one, smul_neg]

theorem KinematicAt.subtractOffset (ha : KinematicAt a t) (hb : KinematicAt b t) :
    KinematicAt (fun s => (a s).subtractOffset (b s)) t :=
  ha.addOffset hb.revert

theorem Kinematic.addOffset (ha : Kinematic a) (hb : Kinematic b) :
    Kinematic fun t => (a t).addOffset (b t) :=
  .of_forall fun t => (ha.kinematicAt t).addOffset (hb.kinematicAt t)

theorem Kinematic.revert (hc : Kinematic c) : Kinematic fun t => (c t).revert :=
  .of_forall fun t => (hc.kinematicAt t).revert

/-! ## Accelerated motions -/

/-- The rate is that of the rotation, and the acceleration that of the rate. -/
structure Accelerated (c : ℝ → Coordinates ℝ) : Prop extends Kinematic c where
  rate : ∀ t, HasDerivAt (fun s => (c s).rate.hamilton) (c t).acceleration.hamilton t

/-- At an instant the rate is that of the rotation, and the acceleration that of the rate. -/
structure AcceleratedAt (c : ℝ → Coordinates ℝ) (t : ℝ) : Prop extends KinematicAt c t where
  rate : HasDerivAt (fun s => (c s).rate.hamilton) (c t).acceleration.hamilton t

theorem Accelerated.acceleratedAt (hc : Accelerated c) (t : ℝ) : AcceleratedAt c t :=
  ⟨hc.toKinematic.kinematicAt t, hc.rate t⟩

/-- The derivative of a rotation has the derivative that follows from the acceleration. -/
theorem AcceleratedAt.velocity (hc : AcceleratedAt c t) :
    HasDerivAt (fun s => (c s).velocity.hamilton) (c t).curvature.hamilton t := by
  simp only [hamilton_velocity]
  refine ((hc.rate.fun_mul hc.rotation).const_smul (1 / 2 : ℝ)).congr_deriv ?_
  simp [curvature]

/-- The rate of a composition: next to the acceleration that is computed, the outer motion turns the
inner rate along. -/
theorem hasDerivAt_rate_addOffset (ha : Accelerated a) (hb : Accelerated b) (t : ℝ) :
    HasDerivAt (fun s => ((a s).addOffset (b s)).rate.hamilton)
      (((a t).addOffset (b t)).acceleration
        + (a t).rate.cross ((a t).rotation.apply (b t).rate)).hamilton t := by
  have hq := ha.normalized t
  have hstar := (ha.toKinematic.kinematicAt t).hasDerivAt_star
  have hturned := ((ha.rotation t).fun_mul (hb.rate t)).fun_mul hstar
  have hfun : (fun s => ((a s).addOffset (b s)).rate.hamilton)
      = fun s => (a s).rate.hamilton
        + (a s).rotation.hamilton * (b s).rate.hamilton * star (a s).rotation.hamilton := by
    funext s
    simp only [Coordinates.addOffset, Vec3.hamilton_add, (ha.normalized s).hamilton_apply]
  rw [hfun]
  refine ((ha.rate t).fun_add hturned).congr_deriv ?_
  simp only [Coordinates.addOffset, Vec3.hamilton_add, Vec3.hamilton_cross, hq.hamilton_apply,
    hamilton_velocity, smul_mul_assoc, mul_smul_comm, add_mul, mul_neg, mul_assoc, smul_sub]
  abel

theorem Accelerated.revert (hc : Accelerated c) : Accelerated fun t => (c t).revert where
  toKinematic := hc.toKinematic.revert
  rate t := by
    have hq := hc.normalized t
    have hstar := (hc.toKinematic.kinematicAt t).hasDerivAt_star
    have hturned := (hstar.fun_mul (hc.rate t).fun_neg).fun_mul (hc.rotation t)
    have hfun : (fun s => (c s).revert.rate.hamilton)
        = fun s => star (c s).rotation.hamilton * -(c s).rate.hamilton
          * (c s).rotation.hamilton := by
      funext s
      simp only [Coordinates.revert, (hc.normalized s).hamilton_applyInverse, Vec3.hamilton_neg]
    rw [hfun]
    refine hturned.congr_deriv ?_
    simp only [Coordinates.revert, Vec3.hamilton_neg, hq.hamilton_applyInverse, hamilton_velocity,
      smul_mul_assoc, mul_smul_comm, add_mul, mul_neg, neg_mul, neg_neg, smul_neg, mul_assoc]
    abel

/-! ## Spins -/

/-- A constant rate, from a given attitude on. -/
theorem kinematic_spin {q : Quaternion ℝ} (hq : q.Normalized) (ω : Vec3 ℝ) :
    Kinematic fun t : ℝ => ⟨(Quaternion.exp (t • ω)).compose q, ω, 0⟩ where
  normalized t := (Quaternion.normalized_exp _).compose hq
  rotation t := by
    have hexp : ∀ s : ℝ, (Quaternion.exp (s • ω)).hamilton
        = NormedSpace.exp (s • ((1 / 2 : ℝ) • ω.hamilton)) := by
      intro s
      rw [Quaternion.hamilton_exp, Vec3.hamilton_smul, smul_comm]
    have hfun : (fun s : ℝ => ((Quaternion.exp (s • ω)).compose q).hamilton)
        = fun s : ℝ => NormedSpace.exp (s • ((1 / 2 : ℝ) • ω.hamilton)) * q.hamilton := by
      funext s
      rw [(Quaternion.normalized_exp _).hamilton_compose hq, hexp]
    rw [hfun]
    refine ((hasDerivAt_exp_smul_const' _ t).mul_const q.hamilton).congr_deriv ?_
    rw [hamilton_velocity, (Quaternion.normalized_exp _).hamilton_compose hq, hexp]
    simp only [smul_mul_assoc, mul_assoc]

theorem accelerated_spin {q : Quaternion ℝ} (hq : q.Normalized) (ω : Vec3 ℝ) :
    Accelerated fun t : ℝ => ⟨(Quaternion.exp (t • ω)).compose q, ω, 0⟩ where
  toKinematic := kinematic_spin hq ω
  rate t := hasDerivAt_const t ω.hamilton

/-- The motion that a motion without acceleration is moved on to. -/
theorem kinematic_shiftedBy (ε : ℝ) {c : Coordinates ℝ} (hc : c.rotation.Normalized)
    (ha : c.acceleration = 0) : Kinematic fun t => c.shiftedBy (.exact ε) t := by
  simp only [shiftedBy_spin ε ha]
  exact kinematic_spin hc c.rate

/-! ## Compositions at an instant -/

/-- Compositions and reversal of kinematic motions are kinematic, and so is moving on from a motion
without acceleration, which keeps its rate. -/
theorem kinematicAt_offsets (ε : ℝ) {start : Coordinates ℝ} (ha : KinematicAt a t)
    (hb : KinematicAt b t) (hstart : start.rotation.Normalized) (hrest : start.acceleration = 0) :
    (KinematicAt (fun s => (a s).addOffset (b s)) t
        ∧ ((a t).addOffset (b t)).rotation.hamilton
          = (a t).rotation.hamilton * (b t).rotation.hamilton)
      ∧ (KinematicAt (fun s => (a s).revert) t
        ∧ (a t).revert.rotation.hamilton = star (a t).rotation.hamilton)
      ∧ (KinematicAt (fun s => (a s).subtractOffset (b s)) t
        ∧ ((a t).subtractOffset (b t)).rotation.hamilton
          = (a t).rotation.hamilton * star (b t).rotation.hamilton)
      ∧ Kinematic (fun dt => start.shiftedBy (.exact ε) dt)
      ∧ start.shiftedBy (.exact ε) 0 = start
      ∧ ∀ dt, (start.shiftedBy (.exact ε) dt).rate = start.rate := by
  have hreverted := hb.normalized.hamilton_inverse
  refine ⟨⟨ha.addOffset hb, ha.normalized.hamilton_compose hb.normalized⟩,
    ⟨ha.revert, ha.normalized.hamilton_inverse⟩, ⟨ha.subtractOffset hb, ?_⟩,
    kinematic_shiftedBy ε hstart hrest, shiftedBy_zero ε hstart, ?_⟩
  · rw [← hreverted]
    exact ha.normalized.hamilton_compose hb.normalized.inverse
  · intro dt
    rw [shiftedBy_spin ε hrest]

/-- A tilted motion that turns about the third axis. -/
noncomputable def rolling : Coordinates ℝ := ⟨.tilt, ⟨0, 0, 1⟩, 0⟩

/-- A motion that turns about the second axis. -/
def pitching : Coordinates ℝ := ⟨⟨1, 0⟩, ⟨0, 1, 0⟩, 0⟩

/-- The rate of the composition is not the sum of the rates: the tilt carries one of them along. -/
theorem kinematicAt_rolling_pitching :
    KinematicAt (fun s => (rolling.shiftedBy (.exact 0) s).addOffset
        (pitching.shiftedBy (.exact 0) s)) 0
      ∧ ((rolling.shiftedBy (.exact 0) 0).addOffset (pitching.shiftedBy (.exact 0) 0)).rate
        = ⟨0, -7 / 25, 49 / 25⟩ := by
  have hrolling : rolling.rotation.Normalized := Quaternion.normalized_tilt
  have hpitching : pitching.rotation.Normalized := Quaternion.normalized_one
  have hmotions := kinematicAt_offsets 0 ((kinematic_shiftedBy 0 hrolling rfl).kinematicAt 0)
    ((kinematic_shiftedBy 0 hpitching rfl).kinematicAt 0) hrolling rfl
  refine ⟨hmotions.1.1, ?_⟩
  rw [shiftedBy_zero 0 hrolling, shiftedBy_zero 0 hpitching]
  ext <;> norm_num [addOffset, rolling, pitching, Quaternion.tilt, Quaternion.apply_eq,
    Quaternion.rotate, Vec3.cross]

end Coordinates

end AngularMotion
