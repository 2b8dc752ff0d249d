import AngularMotion.Proofs.Quaternion.AxisAngle

/-!
# The logarithm

A rotation vector is read off the representative whose scalar part is not negative (`upper`): it is
the angle of this representative along its axis (`log_eq_angle_smul_axis`). So its length is the
distance from the identity (`norm_log`), and its exponential is that representative (`exp_log`).
Vectors of at most half a turn are read back from their exponentials (`log_exp`).

The exponential of a vector is no farther from the identity than the vector is long
(`distance_exp_one_le`), so that no vector with the same rotation is shorter than the logarithm
(`log_shortest`).
-/

namespace AngularMotion.Quaternion

variable {q : Quaternion ℝ} {u : Vec3 ℝ}

/-! ## The upper representative -/

theorem w_upper (q : Quaternion ℝ) : q.upper.w = |q.w| := by
  rcases lt_or_ge q.w 0 with hneg | hpos
  · rw [upper_of_neg hneg, neg_w, abs_of_neg hneg]
  · rw [upper_of_nonneg hpos, abs_of_nonneg hpos]

theorem norm_v_upper (q : Quaternion ℝ) : q.upper.v.norm = q.v.norm := by
  rcases lt_or_ge q.w 0 with hneg | hpos
  · rw [upper_of_neg hneg, neg_v, Vec3.norm_neg]
  · rw [upper_of_nonneg hpos]

theorem Normalized.upper (h : q.Normalized) : q.upper.Normalized := by
  rcases lt_or_ge q.w 0 with hneg | hpos
  · rw [upper_of_neg hneg]
    exact h.neg
  · rwa [upper_of_nonneg hpos]

theorem upper_conjugate (q : Quaternion ℝ) : q.conjugate.upper = q.upper.conjugate := by
  rcases lt_or_ge q.w 0 with hneg | hpos
  · rw [upper_of_neg hneg, upper_of_neg ((conjugate_w q).trans_lt hneg)]
    ext <;> simp [conjugate]
  · rw [upper_of_nonneg hpos, upper_of_nonneg (hpos.trans_eq (conjugate_w q).symm)]

/-- Either representative of a turn leads to the same rotation. -/
theorem Normalized.upper_compose {a : Quaternion ℝ} (hq : q.Normalized) (ha : a.Normalized) :
    q.upper.compose a = q.compose a ∨ q.upper.compose a = -q.compose a := by
  rcases lt_or_ge q.w 0 with hneg | hpos
  · right
    rw [upper_of_neg hneg, hq.neg_compose ha]
  · left
    rw [upper_of_nonneg hpos]

/-- Without a vector part the upper representative is the identity. -/
theorem Normalized.upper_eq_one (h : q.Normalized) (hv : q.v.norm = 0) : q.upper = ⟨1, 0⟩ := by
  have hunit := h.w_mul_add_norm_mul
  have hw : |q.w| = 1 := by
    rw [hv, mul_zero, add_zero, ← abs_mul_abs_self] at hunit
    nlinarith [abs_nonneg q.w]
  exact Quaternion.ext ((w_upper q).trans hw)
    (Vec3.norm_eq_zero_iff.mp ((norm_v_upper q).trans hv))

theorem readable_exp_of_norm_eq (hu : u.norm = Real.pi) : (exp u).Readable := by
  refine (normalized_exp u).readable ?_
  rw [exp_eq, hu, Real.cos_pi_div_two]
  norm_num

/-! ## The distance from the identity -/

theorem Normalized.distance_one (h : q.Normalized) :
    q.distance ⟨1, 0⟩ = 2 * Real.arccos q.upper.w := by
  have hdot : q.dot ⟨1, 0⟩ = q.w := by
    simp [dot_eq]
  rw [h.distance_eq normalized_one, hdot, w_upper]

/-- The angle of the upper representative. -/
theorem Normalized.angle_upper (h : q.Normalized) : q.upper.angle = q.distance ⟨1, 0⟩ := by
  rw [h.upper.angle_eq, h.distance_one]

/-- Vectors of at most half a turn have upper exponentials. -/
theorem w_exp_nonneg (hu : u.norm ≤ Real.pi) : 0 ≤ (exp u).w := by
  rw [exp_eq]
  exact Real.cos_nonneg_of_neg_pi_div_two_le_of_le
    (by linarith [Real.pi_pos, Vec3.zero_le_norm u]) (by linarith)

/-- The exponential of a vector of at most half a turn is as far from the identity as the vector is
long. -/
theorem distance_exp_one (hu : u.norm ≤ Real.pi) : (exp u).distance ⟨1, 0⟩ = u.norm := by
  have hw : (exp u).w = Real.cos (u.norm / 2) := by
    rw [exp_eq]
  have hlower : 0 ≤ u.norm / 2 := div_nonneg (Vec3.zero_le_norm u) zero_le_two
  rw [(normalized_exp u).distance_one, upper_of_nonneg (w_exp_nonneg hu), hw,
    Real.arccos_cos hlower (by linarith [Real.pi_pos]), mul_div_cancel₀ _ (two_ne_zero' ℝ)]

theorem distance_exp_one_le (u : Vec3 ℝ) : (exp u).distance ⟨1, 0⟩ ≤ u.norm := by
  rcases le_total u.norm Real.pi with hshort | hlong
  · exact (distance_exp_one hshort).le
  · exact ((normalized_exp u).distance_le_pi normalized_one).trans hlong

/-! ## Reading -/

theorem Readable.upper (hread : q.Readable) : q.upper.Readable := by
  rwa [Readable, norm_v_upper]

/-- The logarithm is the angle of the upper representative along its axis. -/
theorem Normalized.log_eq_angle_smul_axis (h : q.Normalized) (hread : q.Readable) :
    q.log = q.upper.angle • q.upper.axis := by
  rcases hread with hv | hlong
  · rw [log_eq, h.upper_eq_one hv, normalized_one.angle_eq, Real.arccos_one, mul_zero,
      Vec3.zero_smul, Vec3.smul_zero]
  · have hlong : 1e-15 < q.upper.v.norm := by rwa [norm_v_upper]
    rw [log_eq, if_pos hlong, axis_of_lt hlong]
    ext <;> simp <;> ring

theorem Normalized.norm_log (h : q.Normalized) (hread : q.Readable) :
    q.log.norm = q.distance ⟨1, 0⟩ := by
  rw [h.log_eq_angle_smul_axis hread, Vec3.norm_scaled, norm_axis_eq_one hread.upper, mul_one,
    h.angle_upper, abs_of_nonneg (h.distance_nonneg normalized_one)]

/-- The exponential undoes the logarithm, up to the representative. -/
theorem Normalized.exp_log (h : q.Normalized) (hread : q.Readable) : exp q.log = q.upper := by
  rw [h.log_eq_angle_smul_axis hread, exp_smul_of_unit (norm_axis_eq_one hread.upper),
    h.upper.cos_half_angle, h.upper.sin_half_angle, norm_smul_axis hread.upper]

/-- The logarithm undoes the exponential of at most half a turn. -/
theorem log_exp (hu : u.norm ≤ Real.pi) (hread : (exp u).Readable) : (exp u).log = u := by
  rcases eq_or_ne u 0 with rfl | hne
  · rw [exp_zero, log_one]
  · have hpos : 0 < u.norm := (Vec3.zero_le_norm u).lt_of_ne' (Vec3.norm_ne_zero hne)
    have hsin : 0 < Real.sin (u.norm / 2) :=
      Real.sin_pos_of_pos_of_lt_pi (by linarith) (by linarith)
    have hsize : (exp u).v.norm = Real.sin (u.norm / 2) := by
      rw [exp_eq_turn hne, norm_v_turn hne, abs_of_pos hsin]
    have hlong : 1e-15 < Real.sin (u.norm / 2) := by
      rw [Readable, hsize] at hread
      exact hread.resolve_left hsin.ne'
    rw [(normalized_exp u).log_eq_angle_smul_axis hread, upper_of_nonneg (w_exp_nonneg hu),
      exp_eq_turn hne, angle_turn hne hpos.le (by linarith), axis_turn hne hlong]
    ext <;> simp <;> field_simp

/-- The inverse is read as the opposite vector, half turns included. -/
theorem Normalized.log_inverse (h : q.Normalized) : q.inverse.log = -q.log := by
  have hsmul : ∀ (k : ℝ) (u : Vec3 ℝ), k • -u = -(k • u) := by
    intro k u
    ext <;> simp
  rw [h.inverse_eq, log_eq, log_eq, upper_conjugate, angle, angle, conjugate_w, conjugate_v,
    Vec3.norm_neg, hsmul]

/-- A turn of less than a half about a unit axis is read back. -/
theorem log_exp_smul {axis : Vec3 ℝ} {θ : ℝ} (hunit : axis.norm = 1)
    (hhalf : |θ| / 2 < Real.pi / 2)
    (hread : Real.sin (|θ| / 2) = 0 ∨ 1e-15 < Real.sin (|θ| / 2)) :
    (exp (θ • axis)).log = θ • axis := by
  have hlength : (θ • axis).norm = |θ| := by
    rw [Vec3.norm_scaled, hunit, mul_one]
  have hsize : (exp (θ • axis)).v.norm = Real.sin (|θ| / 2) := by
    have habs : |θ / 2| = |θ| / 2 := by rw [abs_div, abs_two]
    rw [exp_smul_of_unit hunit, Vec3.norm_scaled, hunit, mul_one,
      Real.abs_sin_eq_sin_abs_of_abs_le_pi (by linarith [Real.pi_pos]), habs]
  exact log_exp (by linarith) (by rwa [Readable, hsize])

/-! ## The shortest vector -/

/-- The exponential undoes the logarithm, up to the representative. The logarithm undoes the
exponential of at most half a turn. No vector with the same rotation is shorter. -/
theorem log_shortest (ε : ℝ) :
    (∀ q : Quaternion ℝ, q.Normalized → q.Readable →
      (0 ≤ q.w → ofRotationVector (.exact ε) q.log = q)
        ∧ (q.w < 0 → ofRotationVector (.exact ε) q.log = -q)
        ∧ q.log.norm ≤ Real.pi
        ∧ ∀ u, ofRotationVector (.exact ε) u = q ∨ ofRotationVector (.exact ε) u = -q →
          q.log.norm ≤ u.norm)
      ∧ ∀ u : Vec3 ℝ, u.norm ≤ Real.pi → (ofRotationVector (.exact ε) u).Readable →
        (ofRotationVector (.exact ε) u).log = u := by
  have hexact : ∀ u : Vec3 ℝ, ofRotationVector (.exact ε) u = exp u := fun _ => rfl
  simp only [hexact]
  refine ⟨fun q hq hread => ⟨?_, ?_, ?_, ?_⟩, fun u => log_exp⟩
  · intro hw
    rw [hq.exp_log hread, upper_of_nonneg hw]
  · intro hw
    rw [hq.exp_log hread, upper_of_neg hw]
  · rw [hq.norm_log hread]
    exact hq.distance_le_pi normalized_one
  · intro u hu
    have hsame : (exp u).distance ⟨1, 0⟩ = q.distance ⟨1, 0⟩ := by
      rcases hu with h | h
      · rw [h]
      · rw [h, hq.neg_distance normalized_one]
    rw [hq.norm_log hread, ← hsame]
    exact distance_exp_one_le u

/-- A tilt by its lower representative, and a vector of half a turn. -/
theorem log_shortest_tilt :
    ofRotationVector (.exact 0) (-tilt).log = tilt
      ∧ (∀ u, ofRotationVector (.exact 0) u = tilt → (-tilt).log.norm ≤ u.norm)
      ∧ (ofRotationVector (.exact 0) ⟨0, Real.pi, 0⟩).log = ⟨0, Real.pi, 0⟩ := by
  have htilt : (-tilt).Readable := by
    refine normalized_tilt.neg.readable ?_
    norm_num [tilt]
  have hpi : (⟨0, Real.pi, 0⟩ : Vec3 ℝ).norm = Real.pi := by
    simp [Vec3.norm, Elementary.sqrt, Storable.total, Real.pi_pos.le]
  obtain ⟨_, hneg, _, hshortest⟩ := (log_shortest 0).1 (-tilt) normalized_tilt.neg htilt
  have hw : (-tilt).w < 0 := by
    norm_num [tilt]
  rw [Quaternion.neg_neg] at hneg hshortest
  exact ⟨hneg hw, fun u hu => hshortest u (.inr hu),
    (log_shortest 0).2 _ hpi.le (readable_exp_of_norm_eq hpi)⟩

end AngularMotion.Quaternion
