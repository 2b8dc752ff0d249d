import AngularMotion.Proofs.Kinematics

/-!
# The acceleration of compositions

The acceleration of a composition is specified as a sum: that of the outer motion, and that of the
inner one rotated to the image side. The derivative of the rate of the composition has a further part
where the outer motion turns the inner rate. So the specified acceleration is this derivative at an
instant exactly if the outer motion does not turn the inner rate there, that is if the two rates,
seen from the image side, are parallel:

* `hasDerivAt_acceleration_iff`: this condition for adding and for taking an offset;
* `spins_not_accelerated`: two spins about different axes, which do not meet it.
-/

open scoped Quaternion

namespace AngularMotion.Coordinates

section Definitions

variable {α : Type} [Elementary α] [Storable α] [Zero α] [One α] [Add α] [Sub α] [Mul α] [Div α]
  [OfNat α 2] [LT α] [DecidableLT α]

/-- What a motion that turns adds to the derivative of the rate of an offset. -/
def turning (c offset : Coordinates α) : Vec3 α :=
  c.rate.cross (c.rotation.apply offset.rate)

/-- The spin about an axis at one radian a second. -/
def spin (axis : Vec3 α) (t : α) : Coordinates α :=
  ⟨(Quaternion.exp (t • axis)).compose ⟨1, 0⟩, axis, 0⟩

end Definitions

variable {a b : ℝ → Coordinates ℝ}

theorem hasDerivAt_addOffset_iff (ha : Accelerated a) (hb : Accelerated b) (t : ℝ) :
    HasDerivAt (fun s => ((a s).addOffset (b s)).rate.hamilton)
      ((a t).addOffset (b t)).acceleration.hamilton t ↔ (a t).turning (b t) = 0 := by
  have hrate := hasDerivAt_rate_addOffset ha hb t
  constructor
  · intro h
    have hsum := h.unique hrate
    rw [Vec3.hamilton_add, left_eq_add] at hsum
    exact Vec3.hamilton_injective hsum
  · intro h
    refine hrate.congr_deriv ?_
    rw [← turning, h, Vec3.hamilton_add, Vec3.hamilton_zero, add_zero]

/-- The specified acceleration of either composition is the derivative of its rate exactly where the
outer motion does not turn the rate of the offset. -/
theorem hasDerivAt_acceleration_iff (ha : Accelerated a) (hb : Accelerated b) (t : ℝ) :
    (HasDerivAt (fun s => ((a s).addOffset (b s)).rate.hamilton)
        ((a t).addOffset (b t)).acceleration.hamilton t ↔ (a t).turning (b t) = 0)
      ∧ (HasDerivAt (fun s => ((a s).subtractOffset (b s)).rate.hamilton)
        ((a t).subtractOffset (b t)).acceleration.hamilton t
          ↔ (a t).turning (b t).revert = 0) :=
  ⟨hasDerivAt_addOffset_iff ha hb t, hasDerivAt_addOffset_iff ha hb.revert t⟩

/-! ## Spins -/

noncomputable def xAxis : Vec3 ℝ := ⟨1, 0, 0⟩

noncomputable def yAxis : Vec3 ℝ := ⟨0, 1, 0⟩

theorem accelerated_spin_one (axis : Vec3 ℝ) : Accelerated (spin axis) :=
  accelerated_spin Quaternion.normalized_one axis

/-- At the start a spin has turned nothing yet. -/
theorem spin_zero (axis : Vec3 ℝ) : spin axis 0 = ⟨⟨1, 0⟩, axis, 0⟩ := by
  have hone : Quaternion.compose ⟨1, 0⟩ ⟨1, 0⟩ = (⟨1, 0⟩ : Quaternion ℝ) := by
    apply Quaternion.hamilton_injective
    simp [Quaternion.normalized_one.hamilton_compose Quaternion.normalized_one]
  rw [spin, Vec3.zero_smul, Quaternion.exp_zero, hone]

/-- Two spins about one axis do not turn each other's rates. -/
theorem spins_accelerated :
    HasDerivAt (fun s => ((spin xAxis s).addOffset (spin xAxis s)).rate.hamilton)
      ((spin xAxis 0).addOffset (spin xAxis 0)).acceleration.hamilton 0 := by
  have hspin := accelerated_spin_one xAxis
  refine (hasDerivAt_acceleration_iff hspin hspin 0).1.mpr ?_
  rw [turning, spin_zero]
  ext <;> simp [xAxis, Vec3.cross, Quaternion.apply_eq, Quaternion.rotate]

/-- Two spins about different axes turn each other's rates: the specified acceleration of neither
composition is the derivative of its rate. -/
theorem spins_not_accelerated :
    Accelerated (spin xAxis) ∧ Accelerated (spin yAxis)
      ∧ ¬ HasDerivAt (fun s => ((spin xAxis s).addOffset (spin yAxis s)).rate.hamilton)
        ((spin xAxis 0).addOffset (spin yAxis 0)).acceleration.hamilton 0
      ∧ ¬ HasDerivAt (fun s => ((spin xAxis s).subtractOffset (spin yAxis s)).rate.hamilton)
        ((spin xAxis 0).subtractOffset (spin yAxis 0)).acceleration.hamilton 0 := by
  have hfirst := accelerated_spin_one xAxis
  have hsecond := accelerated_spin_one yAxis
  refine ⟨hfirst, hsecond, ?_, ?_⟩
  · intro h
    have hturning := (hasDerivAt_addOffset_iff hfirst hsecond 0).mp h
    rw [turning, spin_zero, spin_zero] at hturning
    have hz := congrArg Vec3.z hturning
    simp [xAxis, yAxis, Vec3.cross, Quaternion.apply_eq, Quaternion.rotate] at hz
  · intro h
    have hturning := (hasDerivAt_addOffset_iff hfirst hsecond.revert 0).mp h
    rw [turning, spin_zero, spin_zero] at hturning
    have hz := congrArg Vec3.z hturning
    simp [revert, xAxis, yAxis, Vec3.cross, Quaternion.applyInverse, Quaternion.conjugate,
      Quaternion.apply_eq, Quaternion.rotate] at hz

end AngularMotion.Coordinates
