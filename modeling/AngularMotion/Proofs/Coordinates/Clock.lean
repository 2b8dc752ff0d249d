import AngularMotion.Proofs.Coordinates.Offset
import AngularMotion.Proofs.Rodrigues.Inverse
import Mathlib.Tactic.Module

/-!
# Motions by other clocks

By a clock of another pace a motion has the same rotation, its rate is divided by the pace and its
acceleration by the square of it. Offsets (`addOffset_onClock`), moving on (`shiftedBy_onClock`) and
modified Rodrigues vectors with their derivatives (`encode_onClock`, `decode_onClock`) commute with
the change.
-/

namespace AngularMotion

section Definitions

variable {α : Type} [Mul α] [Div α] (pace : α)

/-- A motion by a clock of another pace. -/
def Coordinates.onClock (m : Coordinates α) : Coordinates α :=
  ⟨m.rotation, m.rate / pace, m.acceleration / (pace * pace)⟩

def Rodrigues.onClock (r : Rodrigues α) : Rodrigues α :=
  ⟨r.value, r.first / pace, r.second / (pace * pace)⟩

end Definitions

variable {pace : ℝ}

/-! ## Motions -/

namespace Coordinates

variable (a b m : Coordinates ℝ)

theorem addOffset_onClock :
    (a.onClock pace).addOffset (b.onClock pace) = (a.addOffset b).onClock pace := by
  have hadd : ∀ (u v : Vec3 ℝ) (k : ℝ), u / k + v / k = (u + v) / k := by
    intro u v k
    ext <;> simp [add_div]
  simp only [onClock, addOffset, Quaternion.apply_div, hadd]

theorem revert_onClock : (m.onClock pace).revert = m.revert.onClock pace := by
  have hneg : ∀ (u : Vec3 ℝ) (k : ℝ), -(u / k) = -u / k := by
    intro u k
    ext <;> simp [neg_div]
  simp only [onClock, revert, hneg, Quaternion.applyInverse, Quaternion.apply_div]

/-- Over the same span of time a motion moves on by the same turn. -/
theorem shiftedBy_onClock (ε : ℝ) (hpace : pace ≠ 0) (dt : ℝ) :
    (m.onClock pace).shiftedBy (.exact ε) (pace * dt)
      = (m.shiftedBy (.exact ε) dt).onClock pace := by
  have hrate : (pace * dt) • (m.rate / pace) = dt • m.rate := by
    ext <;> simp <;> field_simp
  have hacceleration : (pace * dt) • ((pace * dt) • (m.acceleration / (pace * pace) / (2 : ℝ)))
      = dt • (dt • (m.acceleration / (2 : ℝ))) := by
    ext <;> simp <;> field_simp
  have hsum : m.rate / pace + (pace * dt) • (m.acceleration / (pace * pace))
      = (m.rate + dt • m.acceleration) / pace := by
    ext <;> simp <;> field_simp
  simp only [shiftedBy_exact, evolution, onClock, hrate, hacceleration, hsum]

theorem estimateRate_onClock (ε : ℝ) (start finish : Quaternion ℝ) (dt : ℝ) :
    estimateRate (.exact ε) start finish (pace * dt)
      = estimateRate (.exact ε) start finish dt / pace := by
  ext <;> simp [estimateRate, div_div, mul_comm]

theorem velocity_onClock : (m.onClock pace).velocity = m.velocity / pace := by
  apply Quaternion.hamilton_injective
  simp only [velocity, onClock, Quaternion.hamilton_div, Quaternion.hamilton_product,
    Quaternion.hamilton_ofVector, Vec3.hamilton_div, smul_mul_assoc]
  rw [smul_comm]

theorem curvature_onClock : (m.onClock pace).curvature = m.curvature / (pace * pace) := by
  rw [curvature, velocity_onClock]
  apply Quaternion.hamilton_injective
  simp only [curvature, onClock, Quaternion.hamilton_div, Quaternion.hamilton_add,
    Quaternion.hamilton_product, Quaternion.hamilton_ofVector, Vec3.hamilton_div, smul_mul_assoc,
    mul_smul_comm]
  module

end Coordinates

/-! ## Rodrigues vectors -/

namespace Rodrigues

theorem quotient_div (q q₁ q₂ : Quaternion ℝ) :
    quotient q (q₁ / pace) (q₂ / (pace * pace)) = (quotient q q₁ q₂).onClock pace := by
  ext <;> simp [quotient, onClock] <;> ring

theorem encode_onClock (m : Coordinates ℝ) (sign : ℝ) :
    encode (m.onClock pace) sign = (encode m sign).onClock pace := by
  simp only [encode_eq]
  rw [← quotient_div, ← Coordinates.velocity_onClock, ← Coordinates.curvature_onClock]
  rfl

variable (r : Rodrigues ℝ)

theorem gainFirst_onClock : (r.onClock pace).gainFirst = r.gainFirst / pace := by
  simp only [gainFirst, gain, onClock, Vec3.dot_eq, Vec3.div_x, Vec3.div_y, Vec3.div_z]
  ring

theorem gainSecond_onClock : (r.onClock pace).gainSecond = r.gainSecond / (pace * pace) := by
  rw [gainSecond, gainFirst_onClock]
  simp only [gainSecond, gain, onClock, Vec3.dot_eq, Vec3.div_x, Vec3.div_y, Vec3.div_z]
  ring

theorem decode_onClock : (r.onClock pace).decode = r.decode.onClock pace := by
  have hlift : (r.onClock pace).lift = r.lift := rfl
  have hfirst : (r.onClock pace).liftFirst = r.liftFirst / pace := by
    rw [liftFirst, gainFirst_onClock]
    ext <;> simp [liftFirst, gain, onClock] <;> ring
  have hsecond : (r.onClock pace).liftSecond = r.liftSecond / (pace * pace) := by
    rw [liftSecond, gainFirst_onClock, gainSecond_onClock]
    ext <;> simp [liftSecond, gain, onClock] <;> ring
  have hvector : ∀ (p q : Quaternion ℝ) (k : ℝ),
      (2 : ℝ) • ((p / k).product q).v = (2 : ℝ) • (p.product q).v / k := by
    intro p q k
    ext <;> simp [Quaternion.product, Vec3.cross] <;> ring
  rw [decode_eq, decode_eq, hlift, hfirst, hsecond, hvector, hvector]
  rfl

end Rodrigues

end AngularMotion
