import AngularMotion.Proofs.Rodrigues.Inverse

/-!
# Encoding and decoding undo each other

Away from the singularity decoding undoes encoding (`coordinates_encode`): it gives the representative
that the sign chose, with the rate and the acceleration that were encoded. The other way round there
is no singularity. Every vector with any derivatives is decoded to a normalized rotation whose scalar
part is above `-1`, and is what that motion is encoded to (`encode_decode`).
-/

namespace AngularMotion.Rodrigues

variable {K : Type} [Field K]

/-! ## Decoding undoes encoding -/

theorem coordinates_exact (ε : K) (r : Rodrigues K) : r.coordinates (.exact ε) = r.decode := rfl

/-- A motion is decoded to the representative that it was encoded by, which is the same rotation. -/
theorem coordinates_encode [CharZero K] (ε : K) {c : Coordinates K} (h : c.rotation.Normalized)
    {sign : K} (hsign : sign = 1 ∨ sign = -1) (hw : sign * c.rotation.w ≠ -1) :
    (encode c sign).decode = ⟨sign • c.rotation, c.rate, c.acceleration⟩
      ∧ (encode c sign).coordinates (.exact ε) = ⟨sign • c.rotation, c.rate, c.acceleration⟩
      ∧ ∀ u, ((encode c sign).coordinates (.exact ε)).rotation.rotate u = c.rotation.rotate u := by
  have hsquare : sign * sign = 1 := mul_self_eq_one_iff.mpr hsign
  have hsum : 1 + sign * c.rotation.w ≠ 0 := fun hzero => hw (eq_neg_of_add_eq_zero_right hzero)
  have hdecode := decode_encode h hsquare hsum
  refine ⟨hdecode, hdecode, fun u => ?_⟩
  rw [coordinates_exact, hdecode, Quaternion.smul_rotate hsquare]

/-- A tumbling motion, encoded by its other representative. -/
theorem coordinates_encode_tumbling :
    ((encode ⟨⟨1 / 2, ⟨1 / 2, -1 / 2, 1 / 2⟩⟩, ⟨1, 2, 3⟩, ⟨-1, 0, 5⟩⟩ (-1)).decode : Coordinates ℚ)
      = ⟨⟨-1 / 2, ⟨-1 / 2, 1 / 2, -1 / 2⟩⟩, ⟨1, 2, 3⟩, ⟨-1, 0, 5⟩⟩ := by
  have hrotation : (⟨1 / 2, ⟨1 / 2, -1 / 2, 1 / 2⟩⟩ : Quaternion ℚ).Normalized := by
    rw [Quaternion.normalized_iff]
    norm_num
  have hsign : (-1 : ℚ) = 1 ∨ (-1 : ℚ) = -1 := .inr rfl
  obtain ⟨hdecode, _⟩ := coordinates_encode 0 (c := ⟨_, ⟨1, 2, 3⟩, ⟨-1, 0, 5⟩⟩) hrotation hsign
    (by norm_num)
  rw [hdecode]
  ext <;> norm_num

/-! ## Encoding undoes decoding -/

theorem encode_one (c : Coordinates K) : encode c 1 = quotient c.rotation c.velocity c.curvature := by
  have hone : (1 : K) • c.rotation = c.rotation := by
    ext <;> simp
  simp only [encode_eq, hone]

variable [LinearOrder K] [IsStrictOrderedRing K] (r : Rodrigues K)

theorem gain_pos : 0 < r.gain := div_pos two_pos (one_add_dot_pos r)

theorem one_lt_gain_iff : 1 < r.gain ↔ r.value.dot r.value < 1 := by
  rw [gain, one_lt_div (one_add_dot_pos r)]
  constructor <;> intro h <;> linarith

/-- The quotient undoes the lift: one plus the scalar part is the gain, and cancels. -/
theorem quotient_lift : quotient r.lift r.liftFirst r.liftSecond = r := by
  have hgain : r.gain ≠ 0 := (gain_pos r).ne'
  have hfactor : 1 / (1 + r.lift.w) = r.gain⁻¹ := by
    rw [lift, add_sub_cancel, one_div]
  ext <;> simp only [quotient, hfactor] <;> simp [lift, liftFirst, liftSecond] <;> field_simp <;> ring

/-- Whatever its derivatives are, a vector is decoded to a normalized rotation, and is what the motion
is encoded to. -/
theorem encode_decode :
    r.decode.rotation.Normalized
      ∧ -1 < r.decode.rotation.w
      ∧ (0 < r.decode.rotation.w ↔ r.value.dot r.value < 1)
      ∧ encode r.decode 1 = r := by
  have hw : r.decode.rotation.w = r.gain - 1 := rfl
  refine ⟨(jet_lift r).normalized, ?_, ?_, ?_⟩
  · rw [hw]
    linarith [gain_pos r]
  · rw [hw, sub_pos, one_lt_gain_iff]
  · calc
      encode r.decode 1 = quotient r.decode.rotation r.decode.velocity r.decode.curvature :=
        encode_one r.decode
      _ = quotient r.lift r.liftFirst r.liftSecond := by
        rw [velocity_decode, curvature_decode, decode_eq]
      _ = r := quotient_lift r

/-- A vector of more than half a turn. -/
theorem encode_decode_long :
    ¬ 0 < (decode ⟨⟨2, 0, 1⟩, ⟨1, -1, 3⟩, ⟨0, 5, 2⟩⟩ : Coordinates ℚ).rotation.w
      ∧ encode (decode ⟨⟨2, 0, 1⟩, ⟨1, -1, 3⟩, ⟨0, 5, 2⟩⟩ : Coordinates ℚ) 1
        = ⟨⟨2, 0, 1⟩, ⟨1, -1, 3⟩, ⟨0, 5, 2⟩⟩ := by
  obtain ⟨_, _, hw, hencode⟩ :=
    encode_decode (⟨⟨2, 0, 1⟩, ⟨1, -1, 3⟩, ⟨0, 5, 2⟩⟩ : Rodrigues ℚ)
  refine ⟨?_, hencode⟩
  rw [hw, Vec3.dot_eq]
  norm_num

end AngularMotion.Rodrigues
