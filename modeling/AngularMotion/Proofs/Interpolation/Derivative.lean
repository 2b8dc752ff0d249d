import AngularMotion.Proofs.Interpolation.Avoidance
import AngularMotion.Proofs.Interpolation.Curve

/-!
# The rate of an interpolated motion

Settled knots describe a motion through the target, with the offset moved along. On an offset that
turns at a constant rate it is kinematic (`kinematic_passage`). All offsets of a search do, so that
the rate of the result is the derivative of its rotation (`hasDerivAt_passage`).
-/

open scoped Quaternion

namespace AngularMotion.Interpolation

open Coordinates

section Definitions

variable {τ α : Type} [Elementary α] [Storable α]
  [Zero α] [One α] [Add α] [Sub α] [Mul α] [Neg α] [Div α] [NatCast α] [OfNat α 2]
  [LT α] [DecidableLT α]

/-- The motion that settled knots describe, some seconds from the target. -/
def passage (p : Working α) (s : Settled (Stamped τ (Coordinates α)) α) (dt : α) : Coordinates α :=
  (curve p s.knots dt).addOffset (s.offset.motion.shiftedBy p dt)

end Definitions

variable {ε time : ℝ} {trust : Trust} {sample : List (Stamped ℝ (Coordinates ℝ))}
  {s : Settled (Stamped ℝ (Coordinates ℝ)) ℝ}

variable (ε) in
theorem kinematic_passage (hnormalized : s.offset.motion.rotation.Normalized)
    (hacceleration : s.offset.motion.acceleration = 0) : Kinematic (passage (.exact ε) s) :=
  (kinematic_curve ε s.knots).addOffset (kinematic_shiftedBy ε hnormalized hacceleration)

/-- At the target the motion is the one that is returned, and everywhere its rate is that of its
rotation. -/
theorem hasDerivAt_passage
    (h : (settle (.exact ε) trust time sample).result = .ok s) :
    (interpolate (.exact ε) trust time sample).result = .ok ⟨time, passage (.exact ε) s 0⟩
      ∧ ∀ dt, HasDerivAt (fun x => (passage (.exact ε) s x).rotation.hamilton)
        ((1 / 2 : ℝ) • ((passage (.exact ε) s dt).rate.hamilton
          * (passage (.exact ε) s dt).rotation.hamilton)) dt := by
  obtain ⟨hnormalized, hacceleration⟩ := settle_offset ε time h
  refine ⟨?_, ?_⟩
  · rw [interpolate, Outcome.map, h, passage, shiftedBy_zero ε hnormalized]
    rfl
  · intro dt
    rw [← hamilton_velocity]
    exact (kinematic_passage ε hnormalized hacceleration).rotation dt

/-- Two turns are interpolated by a motion with its rate. -/
theorem hasDerivAt_passage_twoTurns :
    ∃ s, (settle (.exact 0) .rotation (1 / 2) twoTurns).result = .ok s
      ∧ ∀ dt, HasDerivAt (fun x => (passage (.exact 0) s x).rotation.hamilton)
        ((1 / 2 : ℝ) • ((passage (.exact 0) s dt).rate.hamilton
          * (passage (.exact 0) s dt).rotation.hamilton)) dt := by
  obtain ⟨first, _, k, _, knots, _, hsettle⟩ :=
    settle_reaches 0 (1 / 2) .rotation normalized_twoTurns (not_tooFew_twoTurns .rotation)
  exact ⟨_, hsettle.result, (hasDerivAt_passage hsettle.result).2⟩

end AngularMotion.Interpolation
