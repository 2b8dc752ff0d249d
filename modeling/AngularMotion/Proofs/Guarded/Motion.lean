import AngularMotion.Proofs.Coordinates.Offset
import AngularMotion.Proofs.Guarded.Number
import AngularMotion.Proofs.Quaternion.Exponential
import AngularMotion.Proofs.Rodrigues.Inverse

/-!
# Motions of guarded numbers

The operations on rotations and motions give the same over guarded numbers as over the reals, as long
as what is divided by is not zero: the components and the axis that a rotation is built from, the
time between two rotations, and `1 + w` where a vector is read off. All other divisors are norms of
normalized quaternions, or positive.
-/

namespace AngularMotion

open Guarded

/-! ## Vectors -/

namespace Vec3

/-- The vector of guarded numbers. -/
def guarded (u : Vec3 ℝ) : Vec3 Guarded := ⟨number u.x, number u.y, number u.z⟩

theorem guarded_div {k : ℝ} (hk : k ≠ 0) (u : Vec3 ℝ) :
    u.guarded / number k = (u / k).guarded := by
  ext <;> exact number_div hk

theorem mean_guarded {us : List (Vec3 ℝ)} (h : us ≠ []) :
    mean (us.map guarded) = (mean us).guarded := by
  have hcomponent (f : Vec3 ℝ → ℝ) :
      Storable.mean ((us.map f).map number) = number (Storable.mean (us.map f)) :=
    mean_number (by simpa using h)
  simp only [List.map_map] at hcomponent
  simp only [mean, List.map_map]
  exact Vec3.ext (hcomponent x) (hcomponent y) (hcomponent z)

end Vec3

/-! ## Rotations -/

namespace Quaternion

variable {a b q : Quaternion ℝ}

/-- The quaternion of guarded numbers. -/
def guarded (q : Quaternion ℝ) : Quaternion Guarded := ⟨number q.w, q.v.guarded⟩

theorem guarded_div {k : ℝ} (hk : k ≠ 0) (q : Quaternion ℝ) :
    q.guarded / number k = (q / k).guarded :=
  Quaternion.ext (number_div hk) (Vec3.guarded_div hk q.v)

/-- What is normalized is not zero. -/
theorem Normalized.ne_zero (h : q.Normalized) : q ≠ ⟨0, 0⟩ := by
  rintro rfl
  rw [normalized_iff] at h
  simp at h

theorem normalize_guarded (h : q ≠ ⟨0, 0⟩) : q.guarded.normalize = q.normalize.guarded :=
  guarded_div (norm_ne_zero h) q

theorem compose_guarded (ha : a.Normalized) (hb : b.Normalized) :
    a.guarded.compose b.guarded = (a.compose b).guarded :=
  normalize_guarded (ha.product hb).ne_zero

theorem inverse_guarded (h : q.Normalized) : q.guarded.inverse = q.inverse.guarded :=
  guarded_div (norm_ne_zero h.ne_zero) q.conjugate

theorem turn_guarded {axis : Vec3 ℝ} (haxis : axis ≠ 0) (angle : ℝ) :
    turn axis.guarded (number angle) = (turn axis angle).guarded := by
  have hunit : axis.guarded / axis.guarded.norm = (axis / axis.norm).guarded :=
    Vec3.guarded_div (Vec3.norm_ne_zero haxis) axis
  rw [turn, number_half, hunit]
  rfl

theorem exp_guarded (u : Vec3 ℝ) : exp u.guarded = (exp u).guarded := by
  have hexp : exp u.guarded = normalize ⟨Elementary.cos (number u.norm / 2),
      (if 0 < number u.norm then Elementary.sin (number u.norm / 2) / number u.norm else 1 / 2)
        • u.guarded⟩ := rfl
  have hratio : (if 0 < number u.norm
        then Elementary.sin (number (u.norm / 2)) / number u.norm else 1 / 2)
      = number (if 0 < u.norm then Elementary.sin (u.norm / 2) / u.norm else 1 / 2) := by
    by_cases hu : 0 < u.norm
    · have hu' : 0 < number u.norm := hu
      rw [if_pos hu, if_pos hu']
      exact number_div hu.ne'
    · have hu' : ¬ 0 < number u.norm := hu
      rw [if_neg hu, if_neg hu']
      exact number_half 1
  -- The exponential has norm one before it is normalized.
  have hnormalized := normalized_exp u
  rw [exp_eq] at hnormalized
  rw [hexp, number_half, hratio]
  exact normalize_guarded hnormalized.ne_zero

/-- The rotation vector is read off without a division by zero. -/
theorem read_guarded (h : q.Normalized) :
    (if 1e-15 < q.guarded.v.norm then q.guarded.angle / q.guarded.v.norm else 2 / q.guarded.w)
        • q.guarded.v
      = ((if 1e-15 < q.v.norm then q.angle / q.v.norm else 2 / q.w) • q.v).guarded := by
  by_cases hsize : 1e-15 < q.v.norm
  · have hsize' : (1e-15 : Guarded) < q.guarded.v.norm := hsize
    have hangle : q.guarded.angle / q.guarded.v.norm = number (q.angle / q.v.norm) :=
      number_div ((by norm_num : (0 : ℝ) < 1e-15).trans hsize).ne'
    rw [if_pos hsize, if_pos hsize', hangle]
    rfl
  · have hsize' : ¬ (1e-15 : Guarded) < q.guarded.v.norm := hsize
    have hw : q.w ≠ 0 := by
      intro hzero
      have hvector : q.v.hamilton = q.hamilton := by
        ext <;> simp [hzero]
      rw [Vec3.norm_eq, hvector, normalized_iff_norm.mp h] at hsize
      norm_num at hsize
    have hquotient : 2 / q.guarded.w = number (2 / q.w) := number_div hw
    rw [if_neg hsize, if_neg hsize', hquotient]
    rfl

theorem log_guarded (h : q.Normalized) : q.guarded.log = q.log.guarded := by
  by_cases hw : q.w < 0
  · have hw' : q.guarded.w < 0 := hw
    simp only [log, if_pos hw, if_pos hw']
    exact read_guarded h.neg
  · have hw' : ¬ q.guarded.w < 0 := hw
    simp only [log, if_neg hw, if_neg hw']
    exact read_guarded h

end Quaternion

/-! ## Motions -/

namespace Coordinates

variable {a b c : Coordinates ℝ}

/-- The motion of guarded numbers. -/
def guarded (c : Coordinates ℝ) : Coordinates Guarded :=
  ⟨c.rotation.guarded, c.rate.guarded, c.acceleration.guarded⟩

theorem revert_guarded (hc : c.rotation.Normalized) : c.guarded.revert = c.revert.guarded :=
  Coordinates.ext (Quaternion.inverse_guarded hc) rfl rfl

theorem addOffset_guarded (ha : a.rotation.Normalized) (hb : b.rotation.Normalized) :
    a.guarded.addOffset b.guarded = (a.addOffset b).guarded :=
  Coordinates.ext (Quaternion.compose_guarded ha hb) rfl rfl

theorem subtractOffset_guarded (ha : a.rotation.Normalized) (hb : b.rotation.Normalized) :
    a.guarded.subtractOffset b.guarded = (a.subtractOffset b).guarded := by
  rw [subtractOffset, revert_guarded hb]
  exact addOffset_guarded ha hb.inverse

theorem shiftedBy_guarded (ε : ℝ) (hc : c.rotation.Normalized) (dt : ℝ) :
    c.guarded.shiftedBy (.exact (number ε)) (number dt) = (c.shiftedBy (.exact ε) dt).guarded := by
  have hhalf : c.guarded.acceleration / (2 : Guarded) = (c.acceleration / (2 : ℝ)).guarded :=
    Vec3.guarded_div two_ne_zero c.acceleration
  let turn := dt • c.rate + dt • (dt • (c.acceleration / (2 : ℝ)))
  have hrotation : (Quaternion.exp turn.guarded).compose c.rotation.guarded
      = ((Quaternion.exp turn).compose c.rotation).guarded := by
    rw [Quaternion.exp_guarded, Quaternion.compose_guarded (Quaternion.normalized_exp turn) hc]
  refine Coordinates.ext ?_ rfl rfl
  simp only [shiftedBy, hhalf]
  exact hrotation

theorem estimateRate_guarded (ε : ℝ) {start finish : Quaternion ℝ} (hstart : start.Normalized)
    (hfinish : finish.Normalized) {dt : ℝ} (hdt : dt ≠ 0) :
    estimateRate (.exact (number ε)) start.guarded finish.guarded (number dt)
      = (estimateRate (.exact ε) start finish dt).guarded := by
  rw [estimateRate, Quaternion.inverse_guarded hstart,
    Quaternion.compose_guarded hfinish hstart.inverse,
    Quaternion.log_guarded (hfinish.compose hstart.inverse)]
  exact Vec3.guarded_div hdt _

end Coordinates

/-! ## Modified Rodrigues vectors -/

namespace Rodrigues

/-- The vector and its derivatives of guarded numbers. -/
def guarded (r : Rodrigues ℝ) : Rodrigues Guarded :=
  ⟨r.value.guarded, r.first.guarded, r.second.guarded⟩

theorem decode_guarded (r : Rodrigues ℝ) : r.guarded.decode = r.decode.guarded := by
  have hne : 1 + r.value.dot r.value ≠ 0 := (one_add_dot_pos r).ne'
  have hgain : 2 / (1 + r.guarded.value.dot r.guarded.value)
      = number (2 / (1 + r.value.dot r.value)) := number_div hne
  simp only [decode, hgain]
  rfl

theorem coordinates_guarded (ε : ℝ) (r : Rodrigues ℝ) :
    r.guarded.coordinates (.exact (number ε)) = (r.coordinates (.exact ε)).guarded :=
  decode_guarded r

theorem encode_guarded (c : Coordinates ℝ) {sign : ℝ} (hw : 1 + sign * c.rotation.w ≠ 0) :
    encode c.guarded (number sign) = (encode c sign).guarded := by
  have hfactor : 1 / (1 + (number sign • c.guarded.rotation).w)
      = number (1 / (1 + (sign • c.rotation).w)) := number_div hw
  have hfirst : (Quaternion.ofVector c.guarded.rate).product (number sign • c.guarded.rotation)
        / (2 : Guarded)
      = ((Quaternion.ofVector c.rate).product (sign • c.rotation) / (2 : ℝ)).guarded :=
    Quaternion.guarded_div two_ne_zero ((Quaternion.ofVector c.rate).product (sign • c.rotation))
  have hsecond (q : Quaternion ℝ) :
      ((Quaternion.ofVector c.guarded.acceleration).product (number sign • c.guarded.rotation)
          + (Quaternion.ofVector c.guarded.rate).product q.guarded) / (2 : Guarded)
      = (((Quaternion.ofVector c.acceleration).product (sign • c.rotation)
          + (Quaternion.ofVector c.rate).product q) / (2 : ℝ)).guarded :=
    Quaternion.guarded_div two_ne_zero ((Quaternion.ofVector c.acceleration).product
      (sign • c.rotation) + (Quaternion.ofVector c.rate).product q)
  simp only [encode, hfactor, hfirst, hsecond]
  rfl

end Rodrigues

end AngularMotion
