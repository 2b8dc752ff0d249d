import AngularMotion.Proofs.Coordinates.Offset
import AngularMotion.Proofs.Quaternion.Frame
import AngularMotion.Proofs.Rodrigues.Inverse

/-!
# Motions in turned frames

Offsets (`addOffset_carried`, `subtractOffset_carried`), moving on (`shiftedBy_carried`), estimated
rates (`estimateRate_carried`) and modified Rodrigues vectors with their derivatives
(`encode_carried`, `decode_carried`) commute with a change of frame.
-/

namespace AngularMotion

open AngularMotion.Quaternion

section Definitions

variable {α : Type} [Elementary α] [Storable α] [One α] [Add α] [Sub α] [Mul α] [Neg α] [Div α]
  [OfNat α 2]

/-- A motion in a frame that is turned by `c`. -/
def Coordinates.inFrame (c : Quaternion α) (m : Coordinates α) : Coordinates α :=
  ⟨c.inFrame m.rotation, c.apply m.rate, c.apply m.acceleration⟩

/-- A motion with all its vectors turned. -/
def Coordinates.carried (c : Quaternion α) (m : Coordinates α) : Coordinates α :=
  ⟨c.carried m.rotation, c.apply m.rate, c.apply m.acceleration⟩

def Rodrigues.carried (c : Quaternion α) (r : Rodrigues α) : Rodrigues α :=
  ⟨c.apply r.value, c.apply r.first, c.apply r.second⟩

end Definitions

variable {c : Quaternion ℝ}

/-! ## Motions -/

namespace Coordinates

variable (a b m : Coordinates ℝ)

variable {m} in
theorem inFrame_eq (hc : c.Normalized) (hm : m.rotation.Normalized) :
    m.inFrame c = m.carried c := by
  rw [Coordinates.inFrame, hc.inFrame_eq hm, Coordinates.carried]

theorem addOffset_carried (hc : c.Normalized) :
    (a.carried c).addOffset (b.carried c) = (a.addOffset b).carried c := by
  simp only [Coordinates.carried, addOffset, hc.compose_carried, hc.apply_carried, apply_add]

theorem revert_carried (hc : c.Normalized) : (m.carried c).revert = m.revert.carried c := by
  simp only [Coordinates.carried, revert, hc.inverse_carried, ← apply_neg, hc.applyInverse_carried]

theorem subtractOffset_carried (hc : c.Normalized) :
    (a.carried c).subtractOffset (b.carried c) = (a.subtractOffset b).carried c := by
  rw [subtractOffset, subtractOffset, revert_carried b hc, addOffset_carried a b.revert hc]

theorem shiftedBy_carried (ε : ℝ) (hc : c.Normalized) (dt : ℝ) :
    (m.carried c).shiftedBy (.exact ε) dt = (m.shiftedBy (.exact ε) dt).carried c := by
  simp only [shiftedBy_exact, evolution, Coordinates.carried, ← apply_div, ← apply_smul,
    ← apply_add, hc.exp_apply, hc.compose_carried]

theorem estimateRate_carried (ε : ℝ) (hc : c.Normalized) (start finish : Quaternion ℝ) (dt : ℝ) :
    estimateRate (.exact ε) (c.carried start) (c.carried finish) dt
      = c.apply (estimateRate (.exact ε) start finish dt) := by
  rw [estimateRate, estimateRate, hc.inverse_carried, hc.compose_carried, hc.log_carried,
    apply_div]

theorem velocity_carried (hc : c.Normalized) : (m.carried c).velocity = c.carried m.velocity := by
  simp only [velocity, Coordinates.carried, ← carried_ofVector, hc.product_carried, carried_div]

theorem curvature_carried (hc : c.Normalized) :
    (m.carried c).curvature = c.carried m.curvature := by
  rw [curvature, velocity_carried m hc]
  simp only [curvature, Coordinates.carried, ← carried_ofVector, hc.product_carried, carried_div,
    carried_add]

end Coordinates

/-! ## Rodrigues vectors -/

namespace Rodrigues

section Rows

variable (r : Rodrigues ℝ)

@[simp] theorem carried_value : (r.carried c).value = c.apply r.value := rfl

@[simp] theorem carried_first : (r.carried c).first = c.apply r.first := rfl

@[simp] theorem carried_second : (r.carried c).second = c.apply r.second := rfl

theorem rows_carried : (r.carried c).rows = r.rows.map c.apply := rfl

end Rows

theorem quotient_carried (q q₁ q₂ : Quaternion ℝ) :
    quotient (c.carried q) (c.carried q₁) (c.carried q₂) = (quotient q q₁ q₂).carried c := by
  simp only [quotient, Rodrigues.carried, carried_w, carried_v, apply_smul, apply_sub]

theorem encode_carried (hc : c.Normalized) (m : Coordinates ℝ) (sign : ℝ) :
    encode (m.carried c) sign = (encode m sign).carried c := by
  simp only [encode_eq]
  rw [← quotient_carried, ← Coordinates.velocity_carried _ hc, ← Coordinates.curvature_carried _ hc]
  simp only [Coordinates.carried, carried_smul]

variable (r : Rodrigues ℝ)

theorem gain_carried (hc : c.Normalized) : (r.carried c).gain = r.gain := by
  simp only [gain, carried_value, hc.dot_apply]

theorem gainFirst_carried (hc : c.Normalized) : (r.carried c).gainFirst = r.gainFirst := by
  simp only [gainFirst, gain_carried r hc, carried_value, carried_first, hc.dot_apply]

theorem gainSecond_carried (hc : c.Normalized) : (r.carried c).gainSecond = r.gainSecond := by
  simp only [gainSecond, gain_carried r hc, gainFirst_carried r hc, carried_value, carried_first,
    carried_second, hc.dot_apply]

theorem decode_carried (hc : c.Normalized) : (r.carried c).decode = r.decode.carried c := by
  have hlift : (r.carried c).lift = c.carried r.lift := by
    simp only [lift, gain_carried r hc, carried_value, Quaternion.carried, apply_smul]
  have hfirst : (r.carried c).liftFirst = c.carried r.liftFirst := by
    simp only [liftFirst, gain_carried r hc, gainFirst_carried r hc, carried_value, carried_first,
      Quaternion.carried, apply_smul, apply_add]
  have hsecond : (r.carried c).liftSecond = c.carried r.liftSecond := by
    simp only [liftSecond, gain_carried r hc, gainFirst_carried r hc, gainSecond_carried r hc,
      carried_value, carried_first, carried_second, Quaternion.carried, apply_smul, apply_add]
  rw [decode_eq, decode_eq, hlift, hfirst, hsecond, ← carried_conjugate, hc.product_carried,
    hc.product_carried]
  simp only [Coordinates.carried, carried_v, apply_smul]

end Rodrigues

end AngularMotion
