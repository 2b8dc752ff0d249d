import AngularMotion.Proofs.Coordinates.Frame
import AngularMotion.Proofs.Interpolation.Reproduction
import AngularMotion.Proofs.Interpolation.Symmetry

/-!
# Interpolation in turned frames

A change of frame is a symmetry of interpolation (`symmetry_frame`): the curve through turned rows
is the turned curve (`curve_carried`), since each component of a turned row is a combination of the
components of the row. Restarts turn the offset about the first axis of the frame they are made in.
So the frame plays no part (`interpolate_inFrame`) if it is turned about that axis, or if there are
no restarts.
-/

open scoped Quaternion

namespace AngularMotion

open AngularMotion.Quaternion

section Definitions

variable {τ α : Type} [Elementary α] [Storable α] [One α] [Add α] [Sub α] [Mul α] [Neg α] [Div α]
  [OfNat α 2]

/-- A motion at an instant, in a frame that is turned by `c`. -/
def Stamped.inFrame (c : Quaternion α) (point : Stamped τ (Coordinates α)) :
    Stamped τ (Coordinates α) :=
  ⟨point.time, point.motion.inFrame c⟩

/-- A knot with its rows turned. -/
def Interpolation.Knot.carried (c : Quaternion α) (k : Interpolation.Knot α) :
    Interpolation.Knot α :=
  ⟨k.abscissa, k.rows.map c.apply⟩

/-- The description in a turned frame. -/
def Interpolation.Reading.frame (c : Quaternion α) : Interpolation.Reading α where
  instant := id
  pace := 1
  motion := Coordinates.carried c
  rate := c.apply
  knot := Interpolation.Knot.carried c

end Definitions

/-! ## The curve -/

theorem Quaternion.apply_eq_basis (c : Quaternion ℝ) (u : Vec3 ℝ) :
    c.apply u = u.x • c.apply ⟨1, 0, 0⟩ + u.y • c.apply ⟨0, 1, 0⟩ + u.z • c.apply ⟨0, 0, 1⟩ := by
  rw [← apply_smul, ← apply_smul, ← apply_smul, ← apply_add, ← apply_add]
  congr 1
  ext <;> simp

namespace Interpolation

variable {ε time : ℝ} {trust : Trust} {c : Quaternion ℝ} {knots : List (Knot ℝ)}

/-- A component of turned rows combines the components of the rows. -/
theorem component_carried (hnodup : (knots.map (·.abscissa)).Nodup) (part : Vec3 ℝ → ℝ)
    (hpart : ∀ u, part (c.apply u) = part (c.apply ⟨1, 0, 0⟩) * u.x
      + part (c.apply ⟨0, 1, 0⟩) * u.y + part (c.apply ⟨0, 0, 1⟩) * u.z) :
    component part (knots.map (Knot.carried c))
      = part (c.apply ⟨1, 0, 0⟩) • component Vec3.x knots
        + part (c.apply ⟨0, 1, 0⟩) • component Vec3.y knots
        + part (c.apply ⟨0, 0, 1⟩) • component Vec3.z knots := by
  have hcomponent : component part (knots.map (Knot.carried c))
      = component (fun u => part (c.apply u)) knots := by
    simp only [component, List.map_map, Function.comp_def, Knot.carried]
  rw [hcomponent, component_linear hnodup hpart]

/-- The derivatives through turned rows are the turned derivatives. -/
theorem track_carried (hnodup : (knots.map (·.abscissa)).Nodup) (p : Nat) (x : ℝ) :
    track (knots.map (Knot.carried c)) p x = c.apply (track knots p x) := by
  have hbasis := c.apply_eq_basis
  have hx := component_carried (c := c) hnodup Vec3.x fun u => by rw [hbasis u]; simp [mul_comm]
  have hy := component_carried (c := c) hnodup Vec3.y fun u => by rw [hbasis u]; simp [mul_comm]
  have hz := component_carried (c := c) hnodup Vec3.z fun u => by rw [hbasis u]; simp [mul_comm]
  rw [hbasis (track knots p x), track, hx, hy, hz]
  ext <;> simp [track, iterate_map_add, mul_comm]

theorem curve_carried (hc : c.Normalized) (hnodup : (knots.map (·.abscissa)).Nodup) (x : ℝ) :
    curve (.exact ε) (knots.map (Knot.carried c)) x = (curve (.exact ε) knots x).carried c := by
  rw [curve_eq, curve_eq, track_carried hnodup, track_carried hnodup, track_carried hnodup,
    ← Rodrigues.decode_carried _ hc, Rodrigues.carried]

/-! ## Frames as symmetries -/

theorem symmetry_frame (ε : ℝ) (trust : Trust) (hc : c.Normalized) :
    Symmetry ε trust (.frame c) where
  instant_sub t s := (one_mul (t - s)).symm
  w_motion _ := rfl
  dot_motion a b := hc.dot_carried a.rotation b.rotation
  rate_motion _ := rfl
  motion_start v := by
    change Coordinates.carried c ⟨⟨1, 0⟩, v, 0⟩ = ⟨⟨1, 0⟩, c.apply v, 0⟩
    rw [Coordinates.carried, carried_one, apply_zero]
  motion_addOffset a b := (Coordinates.addOffset_carried a b hc).symm
  motion_revert m := (Coordinates.revert_carried m hc).symm
  motion_shiftedBy m dt := by
    change (m.shiftedBy (.exact ε) dt).carried c = (m.carried c).shiftedBy (.exact ε) (1 * dt)
    rw [one_mul, Coordinates.shiftedBy_carried m ε hc]
  rate_mean rates := (Vec3.mean_map (apply_add c) (fun k u => apply_smul c u k) rates).symm
  rate_estimateRate a b dt := by
    change c.apply (Coordinates.estimateRate (.exact ε) a.rotation b.rotation dt)
      = Coordinates.estimateRate (.exact ε) (c.carried a.rotation) (c.carried b.rotation) (1 * dt)
    rw [one_mul, Coordinates.estimateRate_carried ε hc]
  knot_knotOf sign r := by
    change (knotOf trust sign r).carried c
      = knotOf trust sign ⟨r.time, 1 * r.abscissa, r.motion.carried c⟩
    rw [one_mul, knotOf, knotOf, Rodrigues.encode_carried hc, Rodrigues.rows_carried, Knot.carried,
      List.map_take]
  motion_curve knots hnodup := (curve_carried hc hnodup 0).symm

/-- A turn about the first axis is the same in all frames that are turned about that axis. -/
theorem carried_restartTurn (hfixed : c.apply ⟨1, 0, 0⟩ = ⟨1, 0, 0⟩) (size : Nat) :
    (restartTurn (.exact ε) size).carried c = restartTurn (.exact ε) size := by
  have haxis : (turned (Real.pi / size)).v = Real.sin (Real.pi / size) • (⟨1, 0, 0⟩ : Vec3 ℝ) := by
    ext <;> simp [turned]
  have hturn : c.carried (turned (Real.pi / size)) = turned (Real.pi / size) := by
    rw [Quaternion.carried, haxis, apply_smul, hfixed, ← haxis]
  rw [restartTurn_exact, Coordinates.carried, hturn, apply_zero]

/-! ## Interpolation -/

variable {sample : List (Stamped ℝ (Coordinates ℝ))}

/-- Rotations are conjugated in a turned frame. -/
theorem point_frame (hc : c.Normalized) {point : Stamped ℝ (Coordinates ℝ)}
    (hpoint : point.motion.rotation.Normalized) :
    (Reading.frame c).point point = point.inFrame c := by
  rw [Stamped.inFrame, Coordinates.inFrame_eq hc hpoint]
  rfl

/-- A sample that is described in a turned frame is interpolated by the motion of the sample in that
frame, with the same events, if no restart is needed or if the frame is turned about the axis of the
restarts. -/
theorem interpolate_inFrame (hc : c.Normalized) (hsound : Sound sample)
    (hframe : AcceptsFirst (.exact ε) trust time sample ∨ c.apply ⟨1, 0, 0⟩ = ⟨1, 0, 0⟩) :
    interpolate (.exact ε) trust time (sample.map (Stamped.inFrame c))
      = (interpolate (.exact ε) trust time sample).map (Stamped.inFrame c) := by
  have hS := symmetry_frame ε trust hc
  have hpoints : sample.map (Stamped.inFrame c) = sample.map (Reading.frame c).point :=
    List.map_congr_left fun point hpoint => (point_frame hc (hsound.normalized point hpoint)).symm
  have hresult : (interpolate (.exact ε) trust time sample).map (Stamped.inFrame c)
      = (interpolate (.exact ε) trust time sample).map (Reading.frame c).point :=
    Outcome.map_congr fun _ hresult => (point_frame hc (normalized_of_interpolate hresult)).symm
  rw [hpoints, hresult, ← Outcome.mapTime_id (Outcome.map (Reading.frame c).point _)]
  rcases hframe with ⟨first, knots, hfirst, haccepted⟩ | hfixed
  · exact hS.interpolate_eq_of_accepted hsound.nodup hfirst haccepted
  · exact hS.interpolate_eq hsound.nodup (carried_restartTurn hfixed _)

/-- A single point is accepted at once. -/
theorem acceptsFirst_single (ε time : ℝ) {trust : Trust} {point : Stamped ℝ (Coordinates ℝ)}
    (hfew : ¬ TooFew trust [point]) : AcceptsFirst (.exact ε) trust time [point] := by
  obtain ⟨rate, hfirst⟩ := firstOffset_exact ε time trust hfew
  rcases attemptAt_total ε time trust [point] (offsetOf time 0 rate) with
    ⟨knots, haccepted⟩ | ⟨_, hmem, _⟩
  · exact ⟨_, knots, hfirst, haccepted⟩
  · cases hmem

/-- A tilt at a rate about the second axis. -/
noncomputable def tilted : Stamped ℝ (Coordinates ℝ) := ⟨0, .tilt, ⟨0, 1, 0⟩, 0⟩

/-- A turn by the same angle about the second axis. -/
noncomputable def nod : Quaternion ℝ := ⟨Quaternion.tilt.w, ⟨0, Quaternion.tilt.v.x, 0⟩⟩

/-- A nod within a second. -/
noncomputable def nodding : List (Stamped ℝ (Coordinates ℝ)) :=
  [⟨0, ⟨1, 0⟩, 0, 0⟩, ⟨1, nod, 0, 0⟩]

/-- A single tilted point seen from a nod, where there is no restart, and a nod seen from a tilt,
which is about the axis of the restarts. -/
theorem interpolate_nodding_inFrame :
    interpolate (.exact 0) .rate 1 ([tilted].map (Stamped.inFrame nod))
        = (interpolate (.exact 0) .rate 1 [tilted]).map (Stamped.inFrame nod)
      ∧ interpolate (.exact 0) .rotation (1 / 2) (nodding.map (Stamped.inFrame .tilt))
        = (interpolate (.exact 0) .rotation (1 / 2) nodding).map (Stamped.inFrame .tilt) := by
  have hnod : nod.Normalized := by
    rw [normalized_iff, nod, tilt]
    norm_num
  have htilted : Sound [tilted] := ⟨by simp [tilted, normalized_tilt], by simp⟩
  have hnodding : Sound nodding := ⟨by simp [nodding, normalized_one, hnod], by simp [nodding]⟩
  have haccepts : AcceptsFirst (.exact 0) .rate 1 [tilted] :=
    acceptsFirst_single 0 1 (by simp [TooFew])
  have hfixed : Quaternion.tilt.apply ⟨1, 0, 0⟩ = ⟨1, 0, 0⟩ := by
    ext <;> simp [tilt, apply_eq, rotate, Vec3.cross]
  exact ⟨interpolate_inFrame hnod htilted (.inl haccepts),
    interpolate_inFrame normalized_tilt hnodding (.inr hfixed)⟩

end Interpolation

end AngularMotion
