import AngularMotion.Proofs.Interpolation.Avoidance
import AngularMotion.Proofs.Interpolation.Curve

/-!
# The points of a sample are reproduced

Up to a representative of the rotation and the order that is trusted, motions agree (`Agrees`).
Decoding and adding an offset respect this. The curve agrees with the residual of a point at its
abscissa, so an accepted attempt reproduces the point at the target, whatever restarts led to its
offset (`reproduces_of_accepted`). So does the motion that is interpolated at the instant of a point
(`interpolate_reproduces`), and with enough points there is such a motion (`exists_reproduction`).
-/

namespace AngularMotion

/-! ## Agreement up to an order -/

/-- The same rotation, and the same derivatives as far as they are trusted. -/
structure Coordinates.Agrees (trust : Trust) (a b : Coordinates ℝ) : Prop where
  rotation : a.rotation = b.rotation
  rate : 1 ≤ trust.maxOrder → a.rate = b.rate
  acceleration : 2 ≤ trust.maxOrder → a.acceleration = b.acceleration

theorem Coordinates.Agrees.addOffset {trust : Trust} {a b : Coordinates ℝ} (h : a.Agrees trust b)
    (offset : Coordinates ℝ) : (a.addOffset offset).Agrees trust (b.addOffset offset) where
  rotation := by
    rw [Coordinates.addOffset, Coordinates.addOffset, h.rotation]
  rate horder := by
    rw [Coordinates.addOffset, Coordinates.addOffset, h.rotation, h.rate horder]
  acceleration horder := by
    rw [Coordinates.addOffset, Coordinates.addOffset, h.rotation, h.acceleration horder]

/-- The same motion as far as it is trusted, up to the representative of its rotation. -/
def Coordinates.Reproduces (trust : Trust) (a b : Coordinates ℝ) : Prop :=
  ∃ sign : ℝ, sign * sign = 1 ∧ a.Agrees trust (b.withSign sign)

/-- What agrees with the rest that an offset leaves of a motion, and takes this offset, agrees with
the motion. -/
theorem Coordinates.Agrees.addOffset_of_subtractOffset {trust : Trust} {a c offset : Coordinates ℝ}
    {sign : ℝ} (h : a.Agrees trust ((c.subtractOffset offset).withSign sign))
    (hsign : sign * sign = 1) (hc : c.rotation.Normalized) (hoffset : offset.rotation.Normalized) :
    (a.addOffset offset).Agrees trust (c.withSign sign) := by
  have hadded := h.addOffset offset
  rwa [withSign_addOffset hsign (hc.compose hoffset.inverse) hoffset,
    subtractOffset_addOffset hc hoffset] at hadded

/-- Decoding uses no derivative for one of lower order. -/
theorem Rodrigues.decode_agrees {trust : Trust} {a b : Rodrigues ℝ} (hvalue : a.value = b.value)
    (hfirst : 1 ≤ trust.maxOrder → a.first = b.first)
    (hsecond : 2 ≤ trust.maxOrder → a.second = b.second) : a.decode.Agrees trust b.decode where
  rotation := by
    rw [decode, decode, hvalue]
  rate horder := by
    rw [decode, decode, hvalue, hfirst horder]
  acceleration horder := by
    rw [decode, decode, hvalue, hfirst (one_le_two.trans horder), hsecond horder]

namespace Interpolation

/-! ## At a point of the sample -/

/-- A sample of rotations at distinct instants. -/
structure Sound (sample : List (Stamped ℝ (Coordinates ℝ))) : Prop where
  normalized : ∀ point ∈ sample, point.motion.rotation.Normalized
  nodup : (sample.map (·.time)).Nodup

variable {ε time : ℝ} {trust : Trust} {sample : List (Stamped ℝ (Coordinates ℝ))}

/-- What is interpolated is a rotation. -/
theorem normalized_of_interpolate {result : Stamped ℝ (Coordinates ℝ)}
    (h : (interpolate (.exact ε) trust time sample).result = .ok result) :
    result.motion.rotation.Normalized := by
  obtain ⟨s, hsettle, rfl⟩ := interpolate_ok ε time h
  obtain ⟨hoffset, _⟩ := settle_offset ε time hsettle
  exact ((kinematic_curve ε s.knots).normalized 0).compose hoffset

theorem Sound.perm (hsound : Sound sample) {others : List (Stamped ℝ (Coordinates ℝ))}
    (h : others.Perm sample) : Sound others where
  normalized point hpoint := hsound.normalized point (h.mem_iff.mp hpoint)
  nodup := (h.map _).nodup_iff.mpr hsound.nodup

theorem Sound.sublist (hsound : Sound sample) {part : List (Stamped ℝ (Coordinates ℝ))}
    (h : part.Sublist sample) : Sound part where
  normalized point hpoint := hsound.normalized point (h.subset hpoint)
  nodup := hsound.nodup.sublist (h.map _)

/-- The curve through a knot agrees with the residual that the knot encodes. -/
theorem curve_agrees {threshold : ℝ} (hthreshold : -1 < threshold) {r : Residual ℝ ℝ}
    (hr : r.motion.rotation.Normalized) {knots : List (Knot ℝ)}
    (hnodup : (knots.map (·.abscissa)).Nodup) {i : Nat} (hi : i < knots.length)
    (hkeeps : Keeps trust threshold r knots[i]) :
    ∃ sign : ℝ, sign * sign = 1
      ∧ (curve (.exact ε) knots r.abscissa).Agrees trust (r.motion.withSign sign) := by
  obtain ⟨sign, hsign, hw, hknot⟩ := hkeeps
  refine ⟨sign, hsign, ?_⟩
  have hdecode : (Rodrigues.encode r.motion sign).decode = r.motion.withSign sign :=
    Rodrigues.decode_encode hr hsign (by linarith)
  have habscissa : knots[i].abscissa = r.abscissa := by
    rw [hknot]
    rfl
  have hrow : ∀ p (hp : p < 3), p ≤ trust.maxOrder →
      track knots p r.abscissa = (Rodrigues.encode r.motion sign).rows[p] := by
    intro p hp horder
    have hrows : knots[i].rows
        = (Rodrigues.encode r.motion sign).rows.take (trust.maxOrder + 1) := by
      rw [hknot]
      rfl
    have hlen : p < knots[i].rows.length := by
      rw [hrows, List.length_take]
      exact lt_min (Nat.lt_succ_of_le horder) hp
    rw [← habscissa, track_knot hnodup hi hlen, List.getElem_of_eq hrows, List.getElem_take]
    rfl
  rw [curve_eq, ← hdecode]
  refine Rodrigues.decode_agrees ?_ ?_ ?_
  · exact hrow 0 (by decide) (Nat.zero_le _)
  · exact hrow 1 (by decide)
  · exact hrow 2 (by decide)

/-- At the instant of a point the curve agrees with what the offset leaves of the point. -/
theorem curve_at_point (hsound : Sound sample) (hne : sample ≠ [])
    {offset : Stamped ℝ (Coordinates ℝ)} {knots : List (Knot ℝ)}
    (hoffset : offset.motion.rotation.Normalized) {i : Nat} (hi : i < sample.length)
    (haccepted : attemptAt (.exact ε) trust sample[i].time sample offset = .ok (.accepted knots)) :
    ∃ sign : ℝ, sign * sign = 1 ∧ (curve (.exact ε) knots 0).Agrees trust
      ((sample[i].motion.subtractOffset offset.motion).withSign sign) := by
  have hnodup := nodup_abscissa_of_accepted ε sample[i].time hsound.nodup haccepted
  rw [attemptAt, attempt, residuals_exact] at haccepted
  have hkeeps := attemptFrom_accepted ε haccepted
  obtain ⟨hlen, hget⟩ := List.forall₂_iff_get.mp hkeeps
  rw [List.length_map] at hlen
  have hknot : Keeps trust (singularityThreshold (sample.length : ℝ))
      (remainder (.exact ε) sample[i].time offset.motion sample[i]) knots[i] := by
    simpa using hget i (by simpa using hi) (hlen ▸ hi)
  have hat : remainder (.exact ε) sample[i].time offset.motion sample[i]
      = ⟨sample[i].time, 0, sample[i].motion.subtractOffset offset.motion⟩ := by
    rw [remainder, sub_self, Coordinates.shiftedBy_zero ε hoffset]
  rw [hat] at hknot
  have hrotation : (sample[i].motion.subtractOffset offset.motion).rotation.Normalized :=
    (hsound.normalized _ (List.getElem_mem hi)).compose hoffset.inverse
  have hthreshold := neg_one_lt_singularityThreshold (List.length_pos_iff.mpr hne)
  have hlast : i < knots.length := hlen ▸ hi
  -- The residual is not read off the goal: its abscissa would have to be found from a number.
  have hcurve := curve_agrees (ε := ε) hthreshold hrotation hnodup hlast hknot
  exact hcurve

/-- On any offset that is a rotation, an accepted attempt reproduces the point at the target. -/
theorem reproduces_of_accepted (hsound : Sound sample) (hne : sample ≠ [])
    {offset : Stamped ℝ (Coordinates ℝ)} {knots : List (Knot ℝ)}
    (hoffset : offset.motion.rotation.Normalized) {i : Nat} (hi : i < sample.length)
    (haccepted : attemptAt (.exact ε) trust sample[i].time sample offset = .ok (.accepted knots)) :
    ((curve (.exact ε) knots 0).addOffset offset.motion).Reproduces trust sample[i].motion := by
  have hpoint := hsound.normalized _ (List.getElem_mem hi)
  obtain ⟨sign, hsign, hcurve⟩ := curve_at_point hsound hne hoffset hi haccepted
  exact ⟨sign, hsign, hcurve.addOffset_of_subtractOffset hsign hpoint hoffset⟩

theorem reproduces_of_interpolate (hsound : Sound sample) {i : Nat} (hi : i < sample.length)
    {result : Stamped ℝ (Coordinates ℝ)}
    (h : (interpolate (.exact ε) trust sample[i].time sample).result = .ok result) :
    result.motion.Reproduces trust sample[i].motion := by
  obtain ⟨s, hsettle, rfl⟩ := interpolate_ok ε _ h
  obtain ⟨hne, haccepted, _⟩ := settle_ok ε _ hsettle
  obtain ⟨hoffset, _⟩ := settle_offset ε _ hsettle
  exact reproduces_of_accepted hsound hne hoffset hi haccepted

/-- A sign chooses a rotation or its other representative. -/
theorem rotation_of_sign {sign : ℝ} (hsign : sign * sign = 1) (q : Quaternion ℝ) :
    sign • q = q ∨ sign • q = -q := by
  rcases mul_self_eq_one_iff.mp hsign with rfl | rfl
  · left
    ext <;> simp
  · right
    ext <;> simp

/-- At the instant of a point the interpolated motion is that of the point: its rotation up to the
sign of the representative, and its derivatives as far as they are trusted. -/
theorem interpolate_reproduces (hsound : Sound sample) {i : Nat} (hi : i < sample.length)
    {result : Stamped ℝ (Coordinates ℝ)}
    (h : (interpolate (.exact ε) trust sample[i].time sample).result = .ok result) :
    (result.motion.rotation = sample[i].motion.rotation
        ∨ result.motion.rotation = -sample[i].motion.rotation)
      ∧ (trust = .rate ∨ trust = .acceleration → result.motion.rate = sample[i].motion.rate)
      ∧ (trust = .acceleration → result.motion.acceleration = sample[i].motion.acceleration) := by
  obtain ⟨sign, hsign, hagrees⟩ := reproduces_of_interpolate hsound hi h
  refine ⟨?_, ?_, ?_⟩
  · rw [hagrees.rotation]
    exact rotation_of_sign hsign _
  · intro htrust
    refine hagrees.rate ?_
    rcases htrust with rfl | rfl <;> decide
  · rintro rfl
    exact hagrees.acceleration (by decide)

/-- The second of two turns is reproduced. -/
theorem interpolate_twoTurns_reproduces :
    ∃ result, (interpolate (.exact 0) .acceleration 1 twoTurns).result = .ok result
      ∧ (result.motion.rotation = .turned 1 ∨ result.motion.rotation = -.turned 1)
      ∧ result.motion.rate = 0 ∧ result.motion.acceleration = 0 := by
  have hsound : Sound twoTurns := ⟨normalized_twoTurns, by simp [twoTurns]⟩
  obtain ⟨_, _, k, _, knots, _, hsettle⟩ := settle_reaches 0 1 .acceleration normalized_twoTurns
    (not_tooFew_twoTurns .acceleration)
  have hresult := (interpolate_reaches 0 1 hsettle).result
  have hi : 1 < twoTurns.length := by simp [twoTurns]
  obtain ⟨hrotation, hrate, hacceleration⟩ := interpolate_reproduces (i := 1) hsound hi hresult
  exact ⟨_, hresult, hrotation, hrate (.inr rfl), hacceleration rfl⟩

/-! ## Reproductions -/

/-- At the instant of a point a sample with enough points is interpolated by that point. -/
theorem exists_reproduction (ε : ℝ) (hsound : Sound sample) (hfew : ¬ TooFew trust sample)
    {point : Stamped ℝ (Coordinates ℝ)} (hpoint : point ∈ sample) :
    ∃ result, (interpolate (.exact ε) trust point.time sample).result = .ok result
      ∧ result.motion.Reproduces trust point.motion := by
  obtain ⟨i, hi, rfl⟩ := List.getElem_of_mem hpoint
  obtain ⟨_, _, _, _, _, _, hsettle⟩ :=
    settle_reaches ε sample[i].time trust hsound.normalized hfew
  have hresult := (interpolate_reaches ε sample[i].time hsettle).result
  exact ⟨_, hresult, reproduces_of_interpolate hsound hi hresult⟩

end Interpolation

end AngularMotion
