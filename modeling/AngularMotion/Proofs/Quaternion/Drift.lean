import AngularMotion.Proofs.Quaternion.Rotation

/-!
# Norms that have drifted

Composition normalizes its result. So it sees its operands only up to a positive factor
(`compose_scaled`), and of any two quaternions but zero it makes a normalized one
(`normalized_compose`). The inverse of any quaternion but zero is normalized too: it is the inverse of
the rotation that the quaternion stands for (`inverse_normalize`), and therefore cancels it on either
side (`compose_inverse_of_ne_zero`, `inverse_compose_of_ne_zero`).
-/

open scoped Quaternion

namespace AngularMotion.Quaternion

variable {a b q : Quaternion ℝ}

/-! ## Positive factors -/

theorem normalize_smul {s : ℝ} (hs : 0 < s) (q : Quaternion ℝ) :
    (s • q).normalize = q.normalize := by
  apply hamilton_injective
  rw [hamilton_normalize, hamilton_normalize, hamilton_smul, norm_smul, Real.norm_of_nonneg hs.le,
    mul_inv, smul_smul, mul_right_comm, inv_mul_cancel₀ hs.ne', one_mul]

theorem compose_scaled {s t : ℝ} (hs : 0 < s) (ht : 0 < t) (a b : Quaternion ℝ) :
    (s • a).compose (t • b) = a.compose b := by
  calc
    (s • a).compose (t • b) = (s • a).normalize.compose (t • b).normalize := by
      rw [normalize_compose, compose_normalize]
    _ = a.normalize.compose b.normalize := by rw [normalize_smul hs, normalize_smul ht]
    _ = a.compose b := by rw [normalize_compose, compose_normalize]

/-! ## Norms -/

/-- There are no divisors of zero. -/
theorem product_ne_zero (ha : a ≠ ⟨0, 0⟩) (hb : b ≠ ⟨0, 0⟩) : a.product b ≠ ⟨0, 0⟩ := by
  rw [Ne, ← hamilton_eq_zero_iff] at ha hb ⊢
  rw [hamilton_product]
  exact mul_ne_zero ha hb

theorem normalized_compose (ha : a ≠ ⟨0, 0⟩) (hb : b ≠ ⟨0, 0⟩) : (a.compose b).Normalized :=
  normalized_normalize (product_ne_zero ha hb)

/-! ## Inverses -/

/-- Whether the norm is divided out before or after, the conjugate is divided by it once. -/
theorem inverse_normalize (h : q ≠ ⟨0, 0⟩) : q.normalize.inverse = q.inverse := by
  apply hamilton_injective
  rw [(normalized_normalize h).hamilton_inverse, ← normalize_conjugate, hamilton_normalize,
    hamilton_normalize, hamilton_conjugate, norm_star, Quaternion.star_smul]

theorem compose_inverse_of_ne_zero (h : q ≠ ⟨0, 0⟩) : q.compose q.inverse = ⟨1, 0⟩ := by
  calc
    q.compose q.inverse = q.normalize.compose q.normalize.inverse := by
      rw [normalize_compose, inverse_normalize h]
    _ = ⟨1, 0⟩ := (normalized_normalize h).compose_inverse

theorem inverse_compose_of_ne_zero (h : q ≠ ⟨0, 0⟩) : q.inverse.compose q = ⟨1, 0⟩ := by
  calc
    q.inverse.compose q = q.normalize.inverse.compose q.normalize := by
      rw [compose_normalize, inverse_normalize h]
    _ = ⟨1, 0⟩ := (normalized_normalize h).inverse_compose

/-- Composition absorbs the norms of its operands. Associativity holds at zero as well. -/
theorem compose_absorbs (ε : ℝ) (ha : a ≠ ⟨0, 0⟩) (hb : b ≠ ⟨0, 0⟩) (c : Quaternion ℝ) :
    (a.compose b).norm = 1
      ∧ (∀ s t : ℝ, 0 < s → 0 < t → (s • a).compose (t • b) = a.compose b)
      ∧ (a.compose b).compose c = a.compose (b.compose c)
      ∧ a.compose a.inverse = identity (.exact ε)
      ∧ a.inverse.compose a = identity (.exact ε) := by
  rw [identity_exact]
  exact ⟨(normalized_compose ha hb).norm_eq_one, fun _ _ hs ht => compose_scaled hs ht a b,
    compose_assoc a b c, compose_inverse_of_ne_zero ha, inverse_compose_of_ne_zero ha⟩

/-- A tilt with the norm ten. -/
def longTilt : Quaternion ℝ := ⟨6, ⟨8, 0, 0⟩⟩

/-- Half a turn with the norm ten. -/
def longHalf : Quaternion ℝ := ⟨0, ⟨0, 6, 8⟩⟩

theorem longTilt_absorbs :
    (longTilt.compose longHalf).norm = 1
      ∧ ((1 / 10 : ℝ) • longTilt).compose ((7 : ℝ) • longHalf) = longTilt.compose longHalf
      ∧ (longTilt.compose longHalf).compose ⟨1, ⟨1, 1, 1⟩⟩
        = longTilt.compose (longHalf.compose ⟨1, ⟨1, 1, 1⟩⟩)
      ∧ longTilt.compose longTilt.inverse = ⟨1, 0⟩ ∧ longTilt.inverse.compose longTilt = ⟨1, 0⟩ := by
  have htilt : longTilt ≠ ⟨0, 0⟩ := by
    simp [longTilt]
  have hhalf : longHalf ≠ ⟨0, 0⟩ := by
    simp [longHalf, Vec3.ext_iff]
  obtain ⟨hnorm, hscaled, hassoc, hright, hleft⟩ := compose_absorbs 0 htilt hhalf ⟨1, ⟨1, 1, 1⟩⟩
  rw [identity_exact] at hright hleft
  exact ⟨hnorm, hscaled _ _ (by norm_num) (by norm_num), hassoc, hright, hleft⟩

end AngularMotion.Quaternion
