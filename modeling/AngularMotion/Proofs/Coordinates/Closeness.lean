import AngularMotion.Coordinates
import AngularMotion.Proofs.Quaternion.Distance

/-!
# Close motions

Motions are close within a tolerance if the distance of their rotations and every difference of their
rates and accelerations are within it (`isClose_iff`). All of these are symmetric, and each obeys the
triangle inequality, so that tolerances add up (`isClose_trans`).

The distance is a metric on rotations that is invariant under composition on either side
(`distance_metric`).
-/

namespace AngularMotion

/-! ## Vectors within a tolerance -/

namespace Vec3

/-- No components are farther apart than the tolerance. -/
structure Within (tolerance : ℝ) (u v : Vec3 ℝ) : Prop where
  x : |u.x - v.x| ≤ tolerance
  y : |u.y - v.y| ≤ tolerance
  z : |u.z - v.z| ≤ tolerance

variable {u v w : Vec3 ℝ} {d e : ℝ}

theorem Within.refl (he : 0 ≤ e) (u : Vec3 ℝ) : Within e u u := by
  constructor <;> rwa [sub_self, abs_zero]

theorem Within.symm (h : Within e u v) : Within e v u where
  x := (abs_sub_comm _ _).trans_le h.x
  y := (abs_sub_comm _ _).trans_le h.y
  z := (abs_sub_comm _ _).trans_le h.z

theorem Within.trans (huv : Within d u v) (hvw : Within e v w) : Within (d + e) u w where
  x := (abs_sub_le _ v.x _).trans (add_le_add huv.x hvw.x)
  y := (abs_sub_le _ v.y _).trans (add_le_add huv.y hvw.y)
  z := (abs_sub_le _ v.z _).trans (add_le_add huv.z hvw.z)

theorem all_sub_iff : (u - v).all (fun x => Elementary.abs x ≤ e) = true ↔ Within e u v := by
  simp only [all, Bool.and_eq_true, decide_eq_true_iff]
  exact ⟨fun ⟨⟨hx, hy⟩, hz⟩ => ⟨hx, hy, hz⟩, fun h => ⟨⟨h.x, h.y⟩, h.z⟩⟩

end Vec3

/-! ## Motions within a tolerance -/

namespace Coordinates

variable {ε d e : ℝ} {x y z : Coordinates ℝ}

theorem isClose_iff {tolerance : Option ℝ} :
    isClose (.exact ε) x y tolerance = true
      ↔ x.rotation.distance y.rotation ≤ tolerance.getD ε
        ∧ (x.rate.Within (tolerance.getD ε) y.rate)
        ∧ (x.acceleration.Within (tolerance.getD ε) y.acceleration) := by
  simp only [isClose, Bool.and_eq_true, decide_eq_true_iff, Vec3.all_sub_iff, and_assoc]
  exact Iff.rfl

theorem isClose_symm {tolerance : Option ℝ} (hx : x.rotation.Normalized)
    (hy : y.rotation.Normalized) (h : isClose (.exact ε) x y tolerance = true) :
    isClose (.exact ε) y x tolerance = true := by
  obtain ⟨hrotation, hrate, hacceleration⟩ := isClose_iff.mp h
  rw [hx.distance_comm hy] at hrotation
  exact isClose_iff.mpr ⟨hrotation, hrate.symm, hacceleration.symm⟩

theorem isClose_comm {tolerance : Option ℝ} (hx : x.rotation.Normalized)
    (hy : y.rotation.Normalized) :
    isClose (.exact ε) x y tolerance = isClose (.exact ε) y x tolerance :=
  Bool.eq_iff_iff.mpr ⟨isClose_symm hx hy, isClose_symm hy hx⟩

/-- Tolerances add up. -/
theorem isClose_trans (hx : x.rotation.Normalized) (hy : y.rotation.Normalized)
    (hz : z.rotation.Normalized) (hxy : isClose (.exact ε) x y (some d) = true)
    (hyz : isClose (.exact ε) y z (some e) = true) :
    isClose (.exact ε) x z (some (d + e)) = true := by
  obtain ⟨hrotation, hrate, hacceleration⟩ := isClose_iff.mp hxy
  obtain ⟨hrotation', hrate', hacceleration'⟩ := isClose_iff.mp hyz
  exact isClose_iff.mpr ⟨(hx.distance_triangle hy hz).trans (add_le_add hrotation hrotation'),
    hrate.trans hrate', hacceleration.trans hacceleration'⟩

/-! ## The metric -/

/-- The distance is a metric on rotations, up to their representatives, of half a turn at most. It
does not change where both rotations are composed with a third on either side. So closeness is
symmetric, and tolerances add up. -/
theorem distance_metric (ε : ℝ) {a b c : Quaternion ℝ} (ha : a.Normalized) (hb : b.Normalized)
    (hc : c.Normalized) (hx : x.rotation.Normalized) (hy : y.rotation.Normalized)
    (hz : z.rotation.Normalized) :
    (0 ≤ a.distance b ∧ a.distance b ≤ Real.pi)
      ∧ a.distance b = b.distance a
      ∧ ((-a).distance b = a.distance b ∧ a.distance (-b) = a.distance b)
      ∧ (a.distance b = 0 ↔ a = b ∨ a = -b)
      ∧ ((c.compose a).distance (c.compose b) = a.distance b
        ∧ (a.compose c).distance (b.compose c) = a.distance b)
      ∧ a.distance c ≤ a.distance b + b.distance c
      ∧ (∀ tolerance, isClose (.exact ε) x y tolerance = isClose (.exact ε) y x tolerance)
      ∧ ∀ d e, isClose (.exact ε) x y (some d) = true → isClose (.exact ε) y z (some e) = true →
        isClose (.exact ε) x z (some (d + e)) = true :=
  ⟨⟨ha.distance_nonneg hb, ha.distance_le_pi hb⟩, ha.distance_comm hb,
    ⟨ha.neg_distance hb, ha.distance_neg hb⟩, ha.distance_eq_zero_iff hb,
    ⟨hc.distance_compose_left ha hb, hc.distance_compose_right ha hb⟩,
    ha.distance_triangle hb hc, fun _ => isClose_comm hx hy, fun _ _ => isClose_trans hx hy hz⟩

/-- From the identity to a half turn by way of a tilt. -/
theorem distance_metric_tilt :
    (⟨1, 0⟩ : Quaternion ℝ).distance ⟨0, ⟨0, 1, 0⟩⟩
        ≤ (⟨1, 0⟩ : Quaternion ℝ).distance .tilt + Quaternion.tilt.distance ⟨0, ⟨0, 1, 0⟩⟩
      ∧ isClose (.exact 0) ⟨⟨1, 0⟩, 0, 0⟩ ⟨⟨0, ⟨0, 1, 0⟩⟩, 0, 0⟩
        (some ((⟨1, 0⟩ : Quaternion ℝ).distance .tilt
          + Quaternion.tilt.distance ⟨0, ⟨0, 1, 0⟩⟩)) = true := by
  have hone : (⟨1, 0⟩ : Quaternion ℝ).Normalized := Quaternion.normalized_one
  have htilt := Quaternion.normalized_tilt
  have hhalf : (⟨0, ⟨0, 1, 0⟩⟩ : Quaternion ℝ).Normalized := by
    simp [Quaternion.normalized_iff]
  have hrest : ∀ p q : Quaternion ℝ, 0 ≤ p.distance q →
      isClose (.exact 0) ⟨p, 0, 0⟩ ⟨q, 0, 0⟩ (some (p.distance q)) = true :=
    fun p q h => isClose_iff.mpr ⟨le_rfl, .refl h 0, .refl h 0⟩
  obtain ⟨_, _, _, _, _, htriangle, _, hclose⟩ :=
    distance_metric (x := ⟨_, 0, 0⟩) (y := ⟨_, 0, 0⟩) (z := ⟨_, 0, 0⟩) 0 hone htilt hhalf hone htilt
      hhalf
  exact ⟨htriangle, hclose _ _ (hrest _ _ (hone.distance_nonneg htilt))
    (hrest _ _ (htilt.distance_nonneg hhalf))⟩

end Coordinates

end AngularMotion
