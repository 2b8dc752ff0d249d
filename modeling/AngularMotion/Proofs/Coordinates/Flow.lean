import AngularMotion.Exact
import AngularMotion.Proofs.Coordinates.Offset
import AngularMotion.Proofs.Quaternion.Exponential
import AngularMotion.Stamped

/-!
# Moving on as a flow

The evolutions of a motion over two spans of time add up to the one over both, since the rate is
advanced with the rotation (`evolution_shiftedBy`). Where rate and acceleration are parallel, all
evolutions are parallel, and moving on is a flow (`shiftedBy_shiftedBy`, `shiftedBy_flow`): two spans
of time, forward or backward, count as one. A fixed offset may be added before a motion is moved on
or after it (`addOffset_shiftedBy`).
-/

namespace AngularMotion

namespace Coordinates

variable (ε : ℝ) {c : Coordinates ℝ}

/-! ## Evolutions -/

/-- The rate that is advanced over the first span accounts for the product of both spans. -/
theorem evolution_shiftedBy (c : Coordinates ℝ) (s t : ℝ) :
    (c.shiftedBy (.exact ε) s).evolution t + c.evolution s = c.evolution (s + t) := by
  ext <;> simp [evolution, shiftedBy_exact] <;> ring

/-- Evolutions are spanned by the rate and the acceleration. -/
theorem cross_evolution (c : Coordinates ℝ) (s t : ℝ) :
    ((c.shiftedBy (.exact ε) s).evolution t).cross (c.evolution s)
      = (-(s * t * (s + t) / 2)) • c.rate.cross c.acceleration := by
  ext <;> simp [evolution, shiftedBy_exact, Vec3.cross] <;> ring

/-- Parallel evolutions add up in the rotation. -/
theorem shiftedBy_shiftedBy (hparallel : c.rate.cross c.acceleration = 0) (s t : ℝ) :
    (c.shiftedBy (.exact ε) s).shiftedBy (.exact ε) t = c.shiftedBy (.exact ε) (s + t) := by
  have hcross : ((c.shiftedBy (.exact ε) s).evolution t).cross (c.evolution s) = 0 := by
    rw [cross_evolution, hparallel, Vec3.smul_zero]
  have hrotation : (Quaternion.exp ((c.shiftedBy (.exact ε) s).evolution t)).compose
      ((Quaternion.exp (c.evolution s)).compose c.rotation)
        = (Quaternion.exp (c.evolution (s + t))).compose c.rotation := by
    rw [← Quaternion.compose_assoc, Quaternion.exp_compose_exp_of_parallel hcross,
      evolution_shiftedBy]
  have hrate : c.rate + s • c.acceleration + t • c.acceleration
      = c.rate + (s + t) • c.acceleration := by
    ext <;> simp <;> ring
  exact Coordinates.ext hrotation hrate rfl

/-- A fixed offset may be added before a motion is moved on or after it. -/
theorem addOffset_shiftedBy (c : Coordinates ℝ) {offset : Coordinates ℝ} (hrate : offset.rate = 0)
    (hacceleration : offset.acceleration = 0) (dt : ℝ) :
    (c.addOffset offset).shiftedBy (.exact ε) dt
      = (c.shiftedBy (.exact ε) dt).addOffset offset := by
  simp only [shiftedBy_exact, evolution, addOffset, hrate, hacceleration, Quaternion.apply_zero,
    Vec3.add_zero, Quaternion.compose_assoc]

end Coordinates

namespace Stamped

variable {ε : ℝ} {c : Stamped ℝ (Coordinates ℝ)}

theorem shiftedBy_exact (c : Stamped ℝ (Coordinates ℝ)) (dt : ℝ) :
    c.shiftedBy (.exact ε) dt = .ok ⟨c.time + dt, c.motion.shiftedBy (.exact ε) dt⟩ := rfl

theorem shiftedBy_bind (hparallel : c.motion.rate.cross c.motion.acceleration = 0) (s t : ℝ) :
    (c.shiftedBy (.exact ε) s >>= (·.shiftedBy (.exact ε) t)) = c.shiftedBy (.exact ε) (s + t) := by
  change shiftedBy (.exact ε) ⟨c.time + s, c.motion.shiftedBy (.exact ε) s⟩ t = _
  rw [shiftedBy_exact, shiftedBy_exact, Coordinates.shiftedBy_shiftedBy ε hparallel, add_assoc]

theorem addOffset_shiftedBy (c : Stamped ℝ (Coordinates ℝ)) {offset : Coordinates ℝ}
    (hrate : offset.rate = 0) (hacceleration : offset.acceleration = 0) (dt : ℝ) :
    (c.addOffset offset).shiftedBy (.exact ε) dt
      = (c.shiftedBy (.exact ε) dt).map (·.addOffset offset) := by
  simp only [shiftedBy_exact, addOffset, Except.map,
    c.motion.addOffset_shiftedBy ε hrate hacceleration]

/-- Moving on is a flow where rate and acceleration are parallel, in the rotation, the rate, the
acceleration and the instant. It commutes with fixed offsets, whatever the motion is. -/
theorem shiftedBy_flow (ε : ℝ) (c : Stamped ℝ (Coordinates ℝ)) (hc : c.motion.rotation.Normalized)
    (hparallel : c.motion.rate.cross c.motion.acceleration = 0) (s t : ℝ) :
    ((c.motion.shiftedBy (.exact ε) s).shiftedBy (.exact ε) t = c.motion.shiftedBy (.exact ε) (s + t)
        ∧ c.motion.shiftedBy (.exact ε) 0 = c.motion
        ∧ (c.motion.shiftedBy (.exact ε) t).shiftedBy (.exact ε) (-t) = c.motion)
      ∧ ((c.shiftedBy (.exact ε) s >>= (·.shiftedBy (.exact ε) t))
          = .ok ⟨c.time + (s + t), c.motion.shiftedBy (.exact ε) (s + t)⟩
        ∧ c.shiftedBy (.exact ε) (s + t)
          = .ok ⟨c.time + (s + t), c.motion.shiftedBy (.exact ε) (s + t)⟩
        ∧ c.shiftedBy (.exact ε) 0 = .ok c
        ∧ (c.shiftedBy (.exact ε) t >>= (·.shiftedBy (.exact ε) (-t))) = .ok c)
      ∧ ∀ (d : Stamped ℝ (Coordinates ℝ)) (offset : Coordinates ℝ), offset.rate = 0 →
        offset.acceleration = 0 →
          (d.motion.addOffset offset).shiftedBy (.exact ε) t
              = (d.motion.shiftedBy (.exact ε) t).addOffset offset
            ∧ (d.addOffset offset).shiftedBy (.exact ε) t
              = (d.shiftedBy (.exact ε) t).map (·.addOffset offset) := by
  have hzero := Coordinates.shiftedBy_zero ε hc
  have hback : (c.motion.shiftedBy (.exact ε) t).shiftedBy (.exact ε) (-t) = c.motion := by
    rw [Coordinates.shiftedBy_shiftedBy ε hparallel, add_neg_cancel, hzero]
  have hstay : c.shiftedBy (.exact ε) 0 = .ok c := by
    rw [shiftedBy_exact, hzero, add_zero]
  refine ⟨⟨Coordinates.shiftedBy_shiftedBy ε hparallel s t, hzero, hback⟩,
    ⟨shiftedBy_bind hparallel s t, shiftedBy_exact c (s + t), hstay, ?_⟩, ?_⟩
  · rw [shiftedBy_bind hparallel, add_neg_cancel, hstay]
  · intro d offset hrate hacceleration
    exact ⟨d.motion.addOffset_shiftedBy ε hrate hacceleration t,
      d.addOffset_shiftedBy hrate hacceleration t⟩

/-- A tilted motion that is braked until it turns back. -/
noncomputable def braked : Stamped ℝ (Coordinates ℝ) := ⟨1, ⟨.tilt, ⟨1, -1, 1⟩, ⟨-1, 1, -1⟩⟩⟩

/-- After two seconds the braked motion comes back with the opposite rate, in whatever steps. -/
theorem shiftedBy_flow_braked :
    (braked.shiftedBy (.exact 0) (3 / 2) >>= (·.shiftedBy (.exact 0) (1 / 2)))
        = .ok ⟨3, ⟨.tilt, ⟨-1, 1, -1⟩, ⟨-1, 1, -1⟩⟩⟩
      ∧ (braked.addOffset ⟨.tilt, 0, 0⟩).shiftedBy (.exact 0) 2
        = (braked.shiftedBy (.exact 0) 2).map (·.addOffset ⟨.tilt, 0, 0⟩) := by
  have hparallel : braked.motion.rate.cross braked.motion.acceleration = 0 := by
    ext <;> norm_num [braked, Vec3.cross]
  have hcomes : braked.motion.shiftedBy (.exact 0) 2 = ⟨.tilt, ⟨-1, 1, -1⟩, ⟨-1, 1, -1⟩⟩ := by
    have hturn : braked.motion.evolution 2 = 0 := by
      ext <;> norm_num [braked, Coordinates.evolution]
    rw [Coordinates.shiftedBy_exact, hturn, Quaternion.exp_zero]
    refine Coordinates.ext Quaternion.normalized_tilt.one_compose ?_ rfl
    ext <;> norm_num [braked]
  have hflow := shiftedBy_flow 0 braked Quaternion.normalized_tilt hparallel
  refine ⟨?_, ((hflow 0 2).2.2 braked ⟨.tilt, 0, 0⟩ rfl rfl).2⟩
  have hsum : (3 / 2 + 1 / 2 : ℝ) = 2 := by norm_num
  rw [(hflow (3 / 2) (1 / 2)).2.1.1, hsum, hcomes]
  norm_num [braked]

end Stamped

end AngularMotion
