import AngularMotion.Proofs.Coordinates.Offset
import AngularMotion.Proofs.Quaternion.Logarithm

/-!
# Estimated rates

The rate from one rotation to another is the logarithm of the turn between them, divided by the time.
A motion at this rate arrives, at one of the two representatives (`reached_estimateRate`), by the
shortest way (`norm_estimateRate`), and the rate back is the same over the opposite time
(`estimateRate_neg`). The rate of a motion over at most half a turn is estimated as it is
(`estimateRate_reached`).
-/

namespace AngularMotion.Coordinates

/-- The rotation that is reached from another at a constant rate. -/
def reached {α : Type} [Elementary α] [Storable α] [Zero α] [One α] [Add α] [Sub α] [Mul α] [Div α]
    [OfNat α 2] [LT α] [DecidableLT α] (p : Working α) (start : Quaternion α) (rate : Vec3 α)
    (dt : α) : Quaternion α :=
  ((build p (some start) (some rate) none).shiftedBy p dt).rotation

variable (ε : ℝ) {start finish : Quaternion ℝ} {dt : ℝ}

theorem reached_exact (start : Quaternion ℝ) (rate : Vec3 ℝ) (dt : ℝ) :
    reached (.exact ε) start rate dt = (Quaternion.exp (dt • rate)).compose start := by
  have hbuild : build (.exact ε) (some start) (some rate) none = ⟨start, rate, 0⟩ := rfl
  rw [reached, hbuild, shiftedBy_spin ε rfl]

/-! ## Rates from turns -/

theorem smul_estimateRate (hdt : dt ≠ 0) :
    dt • estimateRate (.exact ε) start finish dt = (finish.compose start.inverse).log := by
  ext <;> simp [estimateRate] <;> field_simp

/-- At the estimated rate a motion arrives. -/
theorem reached_estimateRate (hstart : start.Normalized) (hfinish : finish.Normalized)
    (hdt : dt ≠ 0) (hread : (finish.compose start.inverse).Readable) :
    reached (.exact ε) start (estimateRate (.exact ε) start finish dt) dt = finish
      ∨ reached (.exact ε) start (estimateRate (.exact ε) start finish dt) dt = -finish := by
  have hturn := hfinish.compose hstart.inverse
  have harrives := hturn.upper_compose hstart
  rw [hstart.compose_inverse_compose hfinish] at harrives
  rwa [reached_exact, smul_estimateRate ε hdt, hturn.exp_log hread]

/-- The estimated rate takes the shortest way. -/
theorem norm_estimateRate (hstart : start.Normalized) (hfinish : finish.Normalized) (hdt : dt ≠ 0)
    (hread : (finish.compose start.inverse).Readable) :
    (estimateRate (.exact ε) start finish dt).norm * |dt| = start.distance finish := by
  have hinverse := hstart.inverse
  calc
    (estimateRate (.exact ε) start finish dt).norm * |dt|
        = (dt • estimateRate (.exact ε) start finish dt).norm := by
          rw [Vec3.norm_scaled, mul_comm]
    _ = (finish.compose start.inverse).distance ⟨1, 0⟩ := by
          rw [smul_estimateRate ε hdt, (hfinish.compose hinverse).norm_log hread]
    _ = (finish.compose start.inverse).distance (start.compose start.inverse) := by
          rw [hstart.compose_inverse]
    _ = finish.distance start := hinverse.distance_compose_right hfinish hstart
    _ = start.distance finish := hfinish.distance_comm hstart

/-- The rate back is the same over the opposite time. -/
theorem estimateRate_neg (hstart : start.Normalized) (hfinish : finish.Normalized) (dt : ℝ) :
    estimateRate (.exact ε) finish start (-dt) = estimateRate (.exact ε) start finish dt := by
  have hneg : ∀ (u : Vec3 ℝ) (k : ℝ), -u / -k = u / k := by
    intro u k
    ext <;> simp [neg_div_neg_eq]
  change (start.compose finish.inverse).log / -dt = (finish.compose start.inverse).log / dt
  rw [← hstart.inverse_compose_inverse hfinish, (hfinish.compose hstart.inverse).log_inverse, hneg]

/-! ## Turns from rates -/

/-- The rate of a motion over at most half a turn is estimated as it is. -/
theorem estimateRate_reached {rate : Vec3 ℝ} (hstart : start.Normalized) (hdt : dt ≠ 0)
    (hhalf : (dt • rate).norm ≤ Real.pi)
    (hread : ((reached (.exact ε) start rate dt).compose start.inverse).Readable) :
    estimateRate (.exact ε) start (reached (.exact ε) start rate dt) dt = rate := by
  have hturn : (reached (.exact ε) start rate dt).compose start.inverse
      = Quaternion.exp (dt • rate) := by
    rw [reached_exact, hstart.compose_compose_inverse (Quaternion.normalized_exp _)]
  have hcancel : (dt • rate) / dt = rate := by
    ext <;> simp [mul_div_cancel_left₀ _ hdt]
  rw [hturn] at hread
  change ((reached (.exact ε) start rate dt).compose start.inverse).log / dt = rate
  rw [hturn, Quaternion.log_exp hhalf hread, hcancel]

/-! ## Rates and turns -/

/-- Estimated rates lead to the rotation that they were estimated from, by the shortest way, and
back. The rates of motions over at most half a turn are found again. -/
theorem estimateRate_inverts (hstart : start.Normalized) (hfinish : finish.Normalized)
    (hdt : dt ≠ 0) :
    ((finish.compose start.inverse).Readable →
      (reached (.exact ε) start (estimateRate (.exact ε) start finish dt) dt = finish
        ∨ reached (.exact ε) start (estimateRate (.exact ε) start finish dt) dt = -finish)
      ∧ (estimateRate (.exact ε) start finish dt).norm * |dt| = start.distance finish
      ∧ start.distance finish ≤ Real.pi
      ∧ estimateRate (.exact ε) finish start (-dt) = estimateRate (.exact ε) start finish dt)
    ∧ ∀ rate : Vec3 ℝ, (dt • rate).norm ≤ Real.pi →
      ((reached (.exact ε) start rate dt).compose start.inverse).Readable →
        estimateRate (.exact ε) start (reached (.exact ε) start rate dt) dt = rate := by
  refine ⟨fun hread => ⟨?_, ?_, ?_, ?_⟩, fun rate => estimateRate_reached ε hstart hdt⟩
  · exact reached_estimateRate ε hstart hfinish hdt hread
  · exact norm_estimateRate ε hstart hfinish hdt hread
  · exact hstart.distance_le_pi hfinish
  · exact estimateRate_neg ε hstart hfinish dt

/-- From a tilt half a turn away, back in time, and half a turn from it. -/
theorem estimateRate_inverts_tilt :
    (reached (.exact 0) .tilt (estimateRate (.exact 0) .tilt ⟨0, ⟨0, 1, 0⟩⟩ (-1)) (-1)
          = ⟨0, ⟨0, 1, 0⟩⟩
        ∨ reached (.exact 0) .tilt (estimateRate (.exact 0) .tilt ⟨0, ⟨0, 1, 0⟩⟩ (-1)) (-1)
          = -⟨0, ⟨0, 1, 0⟩⟩)
      ∧ (estimateRate (.exact 0) .tilt ⟨0, ⟨0, 1, 0⟩⟩ (-1)).norm * |-1|
        = Quaternion.tilt.distance ⟨0, ⟨0, 1, 0⟩⟩
      ∧ estimateRate (.exact 0) ⟨0, ⟨0, 1, 0⟩⟩ .tilt 1
        = estimateRate (.exact 0) .tilt ⟨0, ⟨0, 1, 0⟩⟩ (-1)
      ∧ estimateRate (.exact 0) .tilt (reached (.exact 0) .tilt ⟨0, Real.pi, 0⟩ (-1)) (-1)
        = ⟨0, Real.pi, 0⟩ := by
  have htilt := Quaternion.normalized_tilt
  have hfinish : (⟨0, ⟨0, 1, 0⟩⟩ : Quaternion ℝ).Normalized := by
    simp [Quaternion.normalized_iff]
  have hread : (Quaternion.compose ⟨0, ⟨0, 1, 0⟩⟩ Quaternion.tilt.inverse).Readable := by
    refine (hfinish.compose htilt.inverse).readable ?_
    rw [hfinish.compose_eq htilt.inverse, htilt.inverse_eq, Quaternion.w_product_conjugate]
    norm_num [Quaternion.dot_eq, Quaternion.tilt]
  have hlength : ((-1 : ℝ) • (⟨0, Real.pi, 0⟩ : Vec3 ℝ)).norm = Real.pi := by
    simp [Vec3.norm, Elementary.sqrt, Storable.total, Real.pi_pos.le]
  have hhalf : ((reached (.exact 0) .tilt ⟨0, Real.pi, 0⟩ (-1)).compose
      Quaternion.tilt.inverse).Readable := by
    rw [reached_exact, htilt.compose_compose_inverse (Quaternion.normalized_exp _)]
    exact Quaternion.readable_exp_of_norm_eq hlength
  obtain ⟨hturns, hrates⟩ := estimateRate_inverts 0 htilt hfinish (neg_ne_zero.mpr one_ne_zero)
  obtain ⟨harrives, hshortest, _, hback⟩ := hturns hread
  rw [neg_neg] at hback
  exact ⟨harrives, hshortest, hback, hrates _ hlength.le hhalf⟩

end AngularMotion.Coordinates
