import AngularMotion.Proofs.Quaternion.Distance
import AngularMotion.Proofs.Quaternion.Exponential

/-!
# Axis and angle

Axis and angle belong to one representative of a rotation: the other one turns by what is missing to a
full turn (`Normalized.angle_neg`). A representative is the turn by its angle about its axis
(`Normalized.turn_axis_angle`), also at the identity and its antipode, where there is no axis to read.
A turn has the angle and the direction of the axis that it was made with (`angle_turn`, `axis_turn`).

All of this rests on the unit circle: the scalar part is the cosine of half the angle, and the length of
the vector part is the sine (`Normalized.cos_half_angle`, `Normalized.sin_half_angle`).
-/

namespace AngularMotion.Quaternion

/-- The vector part is long enough for its direction to be read, unless it has none. -/
def Readable {α : Type} [Elementary α] [Storable α] [Zero α] [Mul α] [OfScientific α] [LT α]
    (q : Quaternion α) : Prop :=
  q.v.norm = 0 ∨ 1e-15 < q.v.norm

variable {q : Quaternion ℝ} {axis : Vec3 ℝ} {θ : ℝ}

/-! ## The angle -/

theorem Normalized.angle_eq (h : q.Normalized) : q.angle = 2 * Real.arccos q.w := by
  rw [angle, arctan2_eq_arccos (Vec3.zero_le_norm _) h.w_mul_add_norm_mul]

theorem Normalized.cos_half_angle (h : q.Normalized) : Real.cos (q.angle / 2) = q.w := by
  have hunit := h.w_mul_add_norm_mul
  rw [h.angle_eq, mul_div_cancel_left₀ _ (two_ne_zero' ℝ), Real.cos_arccos] <;>
    nlinarith [mul_self_nonneg q.v.norm]

theorem Normalized.sin_half_angle (h : q.Normalized) : Real.sin (q.angle / 2) = q.v.norm := by
  have hunit : 1 - q.w ^ 2 = q.v.norm * q.v.norm := by
    linarith [h.w_mul_add_norm_mul]
  rw [h.angle_eq, mul_div_cancel_left₀ _ (two_ne_zero' ℝ), Real.sin_arccos, hunit,
    Real.sqrt_mul_self (Vec3.zero_le_norm _)]

theorem Normalized.angle_mem (h : q.Normalized) : q.angle ∈ Set.Icc 0 (2 * Real.pi) := by
  have hlower := Real.arccos_nonneg q.w
  have hupper := Real.arccos_le_pi q.w
  rw [h.angle_eq, Set.mem_Icc]
  constructor <;> linarith

/-- The two representatives share a full turn. -/
theorem Normalized.angle_neg (h : q.Normalized) : (-q).angle = 2 * Real.pi - q.angle := by
  rw [h.neg.angle_eq, h.angle_eq, neg_w, Real.arccos_neg]
  ring

/-! ## The axis -/

/-- The axis of any turn of a quarter or more is read. -/
theorem Normalized.readable (h : q.Normalized) (hw : q.w * q.w ≤ 1 / 2) : q.Readable := by
  right
  nlinarith [h.w_mul_add_norm_mul, Vec3.zero_le_norm q.v]

theorem axis_of_eq_zero (hv : q.v.norm = 0) : q.axis = ⟨1, 0, 0⟩ := by
  have hshort : q.v.norm ≤ 1e-15 := by
    rw [hv]
    norm_num
  rw [Quaternion.axis, if_pos hshort]

theorem axis_of_lt (hlong : 1e-15 < q.v.norm) : q.axis = q.v / q.v.norm := by
  rw [Quaternion.axis, if_neg hlong.not_ge]

theorem norm_axis_eq_one (hread : q.Readable) : q.axis.norm = 1 := by
  rcases hread with hv | hlong
  · rw [axis_of_eq_zero hv, Vec3.norm_first]
  · have hne : q.v ≠ 0 := by
      intro hv
      rw [hv, Vec3.norm_eq_zero_iff.mpr rfl] at hlong
      norm_num at hlong
    rw [axis_of_lt hlong, norm_div_norm hne]

/-! ## Turns -/

/-- Without a vector part any axis would do. -/
theorem norm_smul_axis (hread : q.Readable) : q.v.norm • q.axis = q.v := by
  rcases hread with hv | hlong
  · rw [hv, Vec3.zero_smul, Vec3.norm_eq_zero_iff.mp hv]
  · have hne : q.v.norm ≠ 0 := (lt_trans (by norm_num) hlong).ne'
    rw [axis_of_lt hlong]
    ext <;> simp <;> field_simp

theorem Normalized.turn_axis_angle (h : q.Normalized) (hread : q.Readable) :
    turn q.axis q.angle = q := by
  have hunit : q.axis / q.axis.norm = q.axis := by
    rw [norm_axis_eq_one hread]
    ext <;> simp
  rw [turn_eq, h.cos_half_angle, h.sin_half_angle, hunit, norm_smul_axis hread]

theorem angle_turn (haxis : axis ≠ 0) (hlower : 0 ≤ θ) (hupper : θ ≤ 2 * Real.pi) :
    (turn axis θ).angle = θ := by
  have hw : (turn axis θ).w = Real.cos (θ / 2) := by
    rw [turn_eq]
  rw [(normalized_turn haxis θ).angle_eq, hw, Real.arccos_cos (by linarith) (by linarith),
    mul_div_cancel₀ _ (two_ne_zero' ℝ)]

theorem norm_v_turn (haxis : axis ≠ 0) (θ : ℝ) : (turn axis θ).v.norm = |Real.sin (θ / 2)| := by
  rw [turn_eq, Vec3.norm_scaled, norm_div_norm haxis, mul_one]

theorem axis_turn (haxis : axis ≠ 0) (hsin : 1e-15 < Real.sin (θ / 2)) :
    (turn axis θ).axis = axis / axis.norm := by
  have hpos : 0 < Real.sin (θ / 2) := lt_trans (by norm_num) hsin
  have hsize : (turn axis θ).v.norm = Real.sin (θ / 2) := by
    rw [norm_v_turn haxis, abs_of_pos hpos]
  rw [axis_of_lt (hsin.trans_eq hsize.symm), hsize, turn_eq]
  ext <;> simp <;> field_simp

/-- Axis and angle determine the representative, and a turn determines its angle and the direction of
its axis. -/
theorem axis_angle_representative (ε : ℝ) :
    (∀ q : Quaternion ℝ, q.Normalized → q.Readable →
      ofAxisAngle (.exact ε) q.axis q.angle = q
        ∧ q.axis.norm = 1
        ∧ q.angle ∈ Set.Icc 0 (2 * Real.pi)
        ∧ (-q).angle = 2 * Real.pi - q.angle)
      ∧ ∀ (axis : Vec3 ℝ) (θ : ℝ), axis ≠ 0 → θ ∈ Set.Icc 0 (2 * Real.pi) →
        1e-15 < Real.sin (θ / 2) →
        (ofAxisAngle (.exact ε) axis θ).axis = axis / axis.norm
          ∧ (ofAxisAngle (.exact ε) axis θ).angle = θ := by
  simp only [ofAxisAngle_exact]
  refine ⟨?_, ?_⟩
  · intro q hq hread
    exact ⟨hq.turn_axis_angle hread, norm_axis_eq_one hread, hq.angle_mem, hq.angle_neg⟩
  · intro axis θ haxis hθ hsin
    exact ⟨axis_turn haxis hsin, angle_turn haxis hθ.1 hθ.2⟩

/-- A tilt by its lower representative, the antipode of the identity, and a turn of more than a half
about an axis of length two. -/
theorem axis_angle_lower :
    ofAxisAngle (.exact 0) (-tilt).axis (-tilt).angle = -tilt
      ∧ tilt.angle = 2 * Real.pi - (-tilt).angle
      ∧ ofAxisAngle (.exact 0) (⟨-1, 0⟩ : Quaternion ℝ).axis (⟨-1, 0⟩ : Quaternion ℝ).angle
        = ⟨-1, 0⟩
      ∧ (ofAxisAngle (.exact 0) ⟨0, 2, 0⟩ (5 * Real.pi / 3)).axis = ⟨0, 1, 0⟩
      ∧ (ofAxisAngle (.exact 0) ⟨0, 2, 0⟩ (5 * Real.pi / 3)).angle = 5 * Real.pi / 3 := by
  have htilt : (-tilt).Readable := by
    refine normalized_tilt.neg.readable ?_
    norm_num [tilt]
  have hantipode : (⟨-1, 0⟩ : Quaternion ℝ).Readable := .inl (Vec3.norm_eq_zero_iff.mpr rfl)
  have hnormalized : (⟨-1, 0⟩ : Quaternion ℝ).Normalized := by
    simp [normalized_iff]
  have haxis : (⟨0, 2, 0⟩ : Vec3 ℝ) ≠ 0 := by
    simp [Vec3.ext_iff]
  have hrange : 5 * Real.pi / 3 ∈ Set.Icc 0 (2 * Real.pi) := by
    rw [Set.mem_Icc]
    constructor <;> linarith [Real.pi_pos]
  have hsin : 1e-15 < Real.sin (5 * Real.pi / 3 / 2) := by
    have hhalf : 5 * Real.pi / 3 / 2 = Real.pi - Real.pi / 6 := by ring
    rw [hhalf, Real.sin_pi_sub, Real.sin_pi_div_six]
    norm_num
  have hdirection : (⟨0, 2, 0⟩ : Vec3 ℝ) / (⟨0, 2, 0⟩ : Vec3 ℝ).norm = ⟨0, 1, 0⟩ := by
    ext <;> simp [Vec3.norm, Elementary.sqrt, Storable.total]
  obtain ⟨hrepresentative, hturn⟩ := axis_angle_representative 0
  obtain ⟨hlower, _, _, hrest⟩ := hrepresentative (-tilt) normalized_tilt.neg htilt
  rw [Quaternion.neg_neg] at hrest
  rw [← hdirection]
  exact ⟨hlower, hrest, (hrepresentative _ hnormalized hantipode).1, hturn _ _ haxis hrange hsin⟩

end AngularMotion.Quaternion
