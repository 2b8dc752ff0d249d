import AngularMotion.Proofs.Coordinates.Offset
import Mathlib.Algebra.Group.Basic

/-!
# The group of motions

Motions whose rotations are normalized are a group under adding offsets (`exists_group`): a motion at
rest is neutral, and the reverse of a motion is its inverse. The laws of offsets are those of this group
(`offset_algebra`).
-/

namespace AngularMotion.Coordinates

variable {a b c : Coordinates ℝ}

/-- A motion whose rotation is normalized. -/
@[ext] structure Rigid where
  motion : Coordinates ℝ
  normalized : motion.rotation.Normalized

/-- Motions are multiplied by adding offsets, and turned into their inverses by reversal. -/
theorem exists_group :
    ∃ _ : Group Rigid, (∀ g h : Rigid, (g * h).motion = g.motion.addOffset h.motion)
      ∧ (∀ g : Rigid, g⁻¹.motion = g.motion.revert) ∧ (1 : Rigid).motion = ⟨⟨1, 0⟩, 0, 0⟩ := by
  let G : Group Rigid :=
    { mul := fun g h => ⟨g.motion.addOffset h.motion, g.normalized.compose h.normalized⟩
      one := ⟨⟨⟨1, 0⟩, 0, 0⟩, Quaternion.normalized_one⟩
      inv := fun g => ⟨g.motion.revert, g.normalized.inverse⟩
      mul_assoc := fun g h _ => Rigid.ext (addOffset_assoc g.normalized h.normalized)
      one_mul := fun g => Rigid.ext (rest_addOffset g.normalized)
      mul_one := fun g => Rigid.ext (addOffset_rest g.normalized)
      inv_mul_cancel := fun g => Rigid.ext (revert_addOffset g.normalized) }
  exact ⟨G, fun _ _ => rfl, fun _ => rfl, rfl⟩

theorem identity_exact (ε : ℝ) : identity (.exact ε) = (⟨⟨1, 0⟩, 0, 0⟩ : Coordinates ℝ) := by
  rw [identity, build, Option.getD_none, Quaternion.identity_exact]
  rfl

/-- Adding offsets is associative with the identity and reversal of a group, so that what was added
can be taken again, and what was taken can be added again. -/
theorem offset_algebra (ε : ℝ) (ha : a.rotation.Normalized) (hb : b.rotation.Normalized)
    (hc : c.rotation.Normalized) :
    (a.addOffset b).addOffset c = a.addOffset (b.addOffset c)
      ∧ (identity (.exact ε)).addOffset a = a ∧ a.addOffset (identity (.exact ε)) = a
      ∧ a.revert.addOffset a = identity (.exact ε) ∧ a.addOffset a.revert = identity (.exact ε)
      ∧ a.revert.revert = a ∧ (a.addOffset b).revert = b.revert.addOffset a.revert
      ∧ (a.addOffset b).subtractOffset b = a ∧ (a.subtractOffset b).addOffset b = a := by
  obtain ⟨_, hmul, hinv, hone⟩ := exists_group
  let g : Rigid := ⟨a, ha⟩
  let h : Rigid := ⟨b, hb⟩
  -- a law of the group, read off its motions
  have law {k l : Rigid} (hlaw : k = l) : k.motion = l.motion := congrArg Rigid.motion hlaw
  have hassoc := law (mul_assoc g h ⟨c, hc⟩)
  have hcancel := law (mul_inv_cancel g)
  have htwice := law (inv_inv g)
  have hproduct := law (mul_inv_rev g h)
  have hadded := law (mul_inv_cancel_right g h)
  have htaken := law (inv_mul_cancel_right g h)
  simp only [hmul, hinv, hone] at hassoc hcancel htwice hproduct hadded htaken
  rw [identity_exact]
  exact ⟨hassoc, rest_addOffset ha, addOffset_rest ha, revert_addOffset ha,
    hcancel, htwice, hproduct, hadded, htaken⟩

/-- A tilted motion. Its rate and its acceleration lie across the axis of the tilt. -/
noncomputable def tilted : Coordinates ℝ := ⟨.tilt, ⟨1, -1, 0⟩, ⟨0, 0, 1⟩⟩

/-- A motion that is turned by half a turn about another axis. -/
def swung : Coordinates ℝ := ⟨⟨0, ⟨0, 1, 0⟩⟩, ⟨0, 1, 1⟩, ⟨1, 0, 0⟩⟩

theorem offset_algebra_tilted :
    (tilted.addOffset swung).addOffset tilted = tilted.addOffset (swung.addOffset tilted)
      ∧ (tilted.addOffset swung).revert = swung.revert.addOffset tilted.revert
      ∧ (tilted.addOffset swung).subtractOffset swung = tilted
      ∧ (tilted.subtractOffset swung).addOffset swung = tilted := by
  have htilted : tilted.rotation.Normalized := Quaternion.normalized_tilt
  have hswung : swung.rotation.Normalized := by
    simp [swung, Quaternion.normalized_iff]
  obtain ⟨hassoc, _, _, _, _, _, hlaws⟩ := offset_algebra 0 htilted hswung htilted
  exact ⟨hassoc, hlaws⟩

end AngularMotion.Coordinates
