import AngularMotion.Proofs.Interpolation.Comparison
import AngularMotion.Proofs.Rodrigues.Inverse

/-!
# Representatives of the rotations of a sample

A rotation and its antipode stand for the same attitude. Where some rotations of a sample are
replaced by their antipodes, the sign of each residual turns with its representative
(`signAfter_smul`), and the knots stay as they are (`attemptFrom_represented`). The estimated rates
stay as well (`map_rateBetween_flipped`), so that the result is the same after the same restarts
(`interpolate_antipodal`).

Dot products that select a sign must not be zero, and neither must the scalar part of a rotation
that a rate is estimated from: there both representatives are equally good, and the choice depends
on which one is given.
-/

namespace AngularMotion

/-! ## Representatives -/

namespace Quaternion

variable {a b q : Quaternion ℝ} {s t : ℝ}

theorem smul_smul_sign (hs : s * s = 1) (t : ℝ) (q : Quaternion ℝ) : (s * t) • s • q = t • q := by
  have hcancel : ∀ x : ℝ, s * t * (s * x) = t * x := by
    intro x
    linear_combination t * x * hs
  ext <;> simp [hcancel]

/-- The way from one rotation to another, for other representatives of them. -/
theorem smul_compose_inverse (ha : a.Normalized) (hb : b.Normalized) (hs : s * s = 1)
    (ht : t * t = 1) :
    (s • a).compose (t • b).inverse = (s * t) • a.compose b.inverse := by
  have hsa := ha.smul hs
  have htb := hb.smul ht
  apply hamilton_injective
  rw [hsa.hamilton_compose htb.inverse, htb.hamilton_inverse, hamilton_smul, hamilton_smul,
    hamilton_smul, ha.hamilton_compose hb.inverse, hb.hamilton_inverse, Quaternion.star_smul,
    smul_mul_smul_comm]

/-- Both representatives have one upper representative, unless they are half turns. -/
theorem upper_smul (hs : s * s = 1) (hw : q.w ≠ 0) : (s • q).upper = q.upper := by
  rcases mul_self_eq_one_iff.mp hs with rfl | rfl
  · rw [one_smul]
  · have hneg : (-1 : ℝ) • q = -q := by
      ext <;> simp
    rw [hneg]
    rcases lt_or_gt_of_ne hw with hlt | hgt
    · rw [upper_of_neg hlt, upper_of_nonneg (neg_nonneg.mpr hlt.le)]
    · rw [upper_of_nonneg hgt.le, upper_of_neg (neg_neg_of_pos hgt), Quaternion.neg_neg]

/-- The logarithm is that of the rotation, unless it is a half turn. -/
theorem log_smul (hs : s * s = 1) (hw : q.w ≠ 0) : (s • q).log = q.log := by
  rw [log_eq, log_eq, upper_smul hs hw]

end Quaternion

namespace Coordinates

/-- The motion with the other representative of its rotation. -/
def antipode {α : Type} [Neg α] (c : Coordinates α) : Coordinates α :=
  ⟨-c.rotation, c.rate, c.acceleration⟩

theorem antipode_eq (c : Coordinates ℝ) : c.antipode = c.withSign (-1) := by
  ext <;> simp [antipode, withSign]

theorem withSign_one (c : Coordinates ℝ) : c.withSign 1 = c := by
  rw [withSign, Quaternion.one_smul]

theorem encode_withSign {s : ℝ} (hs : s * s = 1) (t : ℝ) (c : Coordinates ℝ) :
    Rodrigues.encode (c.withSign s) (s * t) = Rodrigues.encode c t := by
  simp only [Rodrigues.encode_eq, withSign, Quaternion.smul_smul_sign hs]

end Coordinates

namespace Interpolation

section Definitions

variable {α : Type} [Timeline α α] [Elementary α] [Storable α] [Zero α] [One α] [Add α] [Sub α]
  [Mul α] [Neg α] [Div α] [NatCast α] [OfNat α 2] [OfNat α 4] [OfScientific α] [LT α]
  [DecidableLT α]

/-- No dot product that selects a sign in an attempt is zero. The attempt ends at the first residual
beyond the threshold. -/
def Unambiguous (threshold : α) :
    (sign : α) → (previous : Quaternion α) → List (Residual α α) → Prop
  | _, _, [] => True
  | sign, previous, r :: rest =>
    let selected := signAfter sign previous r.motion.rotation
    r.motion.rotation.dot previous ≠ 0 ∧ (¬ r.motion.rotation.w * selected < threshold →
      Unambiguous threshold selected r.motion.rotation rest)

/-- In every attempt that a search makes no dot product that selects a sign is zero. -/
def UnambiguousSearch (p : Working α) (trust : Trust) (time : α)
    (sample : List (Stamped α (Coordinates α))) : Prop :=
  ∀ first, firstOffset p trust time sample = .ok first →
    ∀ k < attemptLimit sample.length, Attempted p trust time sample first k →
      Unambiguous (singularityThreshold (sample.length : α)) 1 (.identity p)
        (sample.map (remainder p time ((restart p sample.length)^[k] first).motion))

end Definitions

variable {ε time : ℝ} {trust : Trust} {threshold : ℝ}

/-! ## Signs -/

theorem direction_smul {s x : ℝ} (hs : s * s = 1) (hx : x ≠ 0) :
    (Elementary.direction (s * x) : ℝ) = s * Elementary.direction x := by
  rcases mul_self_eq_one_iff.mp hs with rfl | rfl
  · rw [one_mul, one_mul]
  · rcases lt_or_gt_of_ne hx with hlt | hgt
    · rw [direction_eq, direction_eq, if_neg (by linarith), if_pos hlt]
      norm_num
    · rw [direction_eq, direction_eq, if_pos (by linarith), if_neg hgt.not_gt]
      norm_num

/-- The sign of a residual turns with its representative, and not with that of the one before. -/
theorem signAfter_smul {s t sign : ℝ} {previous q : Quaternion ℝ} (hs : s * s = 1) (ht : t * t = 1)
    (hsign : sign * sign = 1) (hdot : q.dot previous ≠ 0) :
    signAfter (t * sign) (t • previous) (s • q) = s * signAfter sign previous q := by
  have hne : q.dot previous * sign ≠ 0 := mul_ne_zero hdot (left_ne_zero_of_mul_eq_one hsign)
  rw [signAfter, signAfter, ← direction_smul hs hne, Quaternion.smul_dot]
  congr 1
  linear_combination s * q.dot previous * sign * ht

/-! ## Attempts -/

/-- The same residual with a representative of its rotation. -/
def Residual.withSign (s : ℝ) (r : Residual ℝ ℝ) : Residual ℝ ℝ :=
  { r with motion := r.motion.withSign s }

/-- The same residual, with one of the representatives of its rotation. -/
def Represented (r other : Residual ℝ ℝ) : Prop :=
  ∃ s : ℝ, s * s = 1 ∧ other = r.withSign s

theorem knotOf_withSign {s : ℝ} (hs : s * s = 1) (sign : ℝ) (r : Residual ℝ ℝ) :
    knotOf trust (s * sign) (r.withSign s) = knotOf trust sign r := by
  simp only [knotOf, Residual.withSign, Coordinates.encode_withSign hs]

variable (ε trust) in
/-- An attempt does not depend on the representatives of the residuals. -/
theorem attemptFrom_represented {rs others : List (Residual ℝ ℝ)}
    (h : List.Forall₂ Represented rs others) {t sign : ℝ} {previous : Quaternion ℝ}
    (ht : t * t = 1) (hsign : sign * sign = 1) (hclear : Unambiguous threshold sign previous rs) :
    attemptFrom (.exact ε) trust threshold (t * sign) (t • previous) (others.map .ok)
      = attemptFrom (.exact ε) trust threshold sign previous (rs.map .ok) := by
  induction h generalizing t sign previous with
  | nil => rfl
  | @cons r other rs others hrepresented _ ih =>
    obtain ⟨s, hs, rfl⟩ := hrepresented
    obtain ⟨hdot, hrest⟩ := hclear
    have hselected := signAfter_smul hs ht hsign hdot
    have hw : (s • r.motion.rotation).w * (s * signAfter sign previous r.motion.rotation)
        = r.motion.rotation.w * signAfter sign previous r.motion.rotation := by
      rw [Quaternion.smul_w]
      linear_combination
        r.motion.rotation.w * signAfter sign previous r.motion.rotation * hs
    have hrotation : (r.withSign s).motion.rotation = s • r.motion.rotation := rfl
    rw [List.map_cons, List.map_cons, attemptFrom_cons, attemptFrom_cons, hrotation, hselected, hw,
      knotOf_withSign hs]
    by_cases hbeyond : r.motion.rotation.w * signAfter sign previous r.motion.rotation < threshold
    · rw [if_pos hbeyond, if_pos hbeyond]
      rfl
    · rw [if_neg hbeyond, if_neg hbeyond,
        ih hs (signAfter_mul_self _ _ _) (hrest hbeyond)]

/-! ## Samples -/

/-- The same point, or the one with the other representative of its rotation. -/
def Flipped {τ α : Type} [Neg α] (point other : Stamped τ (Coordinates α)) : Prop :=
  other = point ∨ other = ⟨point.time, point.motion.antipode⟩

theorem Flipped.exists_sign {point other : Stamped ℝ (Coordinates ℝ)} (h : Flipped point other) :
    ∃ s : ℝ, s * s = 1 ∧ other = ⟨point.time, point.motion.withSign s⟩ := by
  rcases h with rfl | rfl
  · exact ⟨1, one_mul 1, by rw [Coordinates.withSign_one]⟩
  · exact ⟨-1, by norm_num, by rw [Coordinates.antipode_eq]⟩

/-- What an offset leaves of the antipode of a point. -/
theorem represented_remainder {offset : Coordinates ℝ} (hoffset : offset.rotation.Normalized)
    {point other : Stamped ℝ (Coordinates ℝ)} (hpoint : point.motion.rotation.Normalized)
    (h : Flipped point other) :
    Represented (remainder (.exact ε) time offset point)
      (remainder (.exact ε) time offset other) := by
  obtain ⟨s, hs, rfl⟩ := h.exists_sign
  have hshifted : (offset.shiftedBy (.exact ε) (point.time - time)).rotation.Normalized :=
    (Quaternion.normalized_exp _).compose hoffset
  refine ⟨s, hs, ?_⟩
  simp only [remainder, Residual.withSign, Coordinates.subtractOffset]
  rw [Coordinates.withSign_addOffset hs hpoint hshifted.inverse]

variable {sample others : List (Stamped ℝ (Coordinates ℝ))}

theorem represented_remainders {offset : Coordinates ℝ} (hoffset : offset.rotation.Normalized)
    (hsample : ∀ point ∈ sample, point.motion.rotation.Normalized)
    (h : List.Forall₂ Flipped sample others) :
    List.Forall₂ Represented (sample.map (remainder (.exact ε) time offset))
      (others.map (remainder (.exact ε) time offset)) := by
  rw [List.forall₂_map_left_iff, List.forall₂_map_right_iff]
  induction h with
  | nil => exact .nil
  | cons hflipped _ ih =>
    obtain ⟨hpoint, hrest⟩ := List.forall_mem_cons.mp hsample
    exact .cons (represented_remainder hoffset hpoint hflipped) (ih hrest)

/-! ## Rates -/

/-- Rates are estimated alike from either representative, unless the way is a half turn. -/
theorem rateBetween_flipped {point next other otherNext : Stamped ℝ (Coordinates ℝ)}
    (hpoint : point.motion.rotation.Normalized) (hnext : next.motion.rotation.Normalized)
    (hw : (next.motion.rotation.compose point.motion.rotation.inverse).w ≠ 0)
    (h : Flipped point other) (h' : Flipped next otherNext) :
    rateBetween (.exact ε) (other, otherNext) = rateBetween (.exact ε) (point, next) := by
  obtain ⟨s, hs, rfl⟩ := h.exists_sign
  obtain ⟨t, ht, rfl⟩ := h'.exists_sign
  have hts : t * s * (t * s) = 1 := by
    linear_combination t * t * hs + ht
  simp only [rateBetween, Coordinates.estimateRate, Coordinates.withSign]
  rw [Quaternion.smul_compose_inverse hnext hpoint ht hs, Quaternion.log_smul hts hw]

theorem map_rateBetween_flipped (h : List.Forall₂ Flipped sample others)
    (hsample : ∀ point ∈ sample, point.motion.rotation.Normalized)
    (hturns : ∀ pair ∈ sample.zip sample.tail,
      (pair.2.motion.rotation.compose pair.1.motion.rotation.inverse).w ≠ 0) :
    (others.zip others.tail).map (rateBetween (.exact ε))
      = (sample.zip sample.tail).map (rateBetween (.exact ε)) := by
  induction h with
  | nil => rfl
  | cons hflipped hrest ih =>
    cases hrest with
    | nil => rfl
    | cons hflipped' hrest' =>
      obtain ⟨hpoint, hothers⟩ := List.forall_mem_cons.mp hsample
      obtain ⟨hturn, hturns⟩ := List.forall_mem_cons.mp hturns
      have hfirst := rateBetween_flipped (ε := ε) hpoint (hothers _ List.mem_cons_self) hturn
        hflipped hflipped'
      exact congrArg₂ List.cons hfirst (ih hothers hturns)

theorem map_rate_flipped (h : List.Forall₂ Flipped sample others) :
    others.map (·.motion.rate) = sample.map (·.motion.rate) := by
  induction h with
  | nil => rfl
  | cons hflipped _ ih =>
    obtain ⟨s, _, rfl⟩ := hflipped.exists_sign
    rw [List.map_cons, List.map_cons, ih]
    rfl

/-- The first offset does not depend on the representatives. -/
theorem firstOffset_flipped (h : List.Forall₂ Flipped sample others)
    (hsample : ∀ point ∈ sample, point.motion.rotation.Normalized)
    (hturns : trust = .rotation → ∀ pair ∈ sample.zip sample.tail,
      (pair.2.motion.rotation.compose pair.1.motion.rotation.inverse).w ≠ 0) :
    firstOffset (.exact ε) trust time others = firstOffset (.exact ε) trust time sample := by
  have hrates : meanRate (.exact ε) trust others = meanRate (.exact ε) trust sample := by
    have hlength := h.length_eq
    have hempty : others.isEmpty = sample.isEmpty := by
      cases h <;> rfl
    rw [meanRate_eq, meanRate_eq, hempty, ← hlength, map_rate_flipped h]
    cases trust with
    | rotation => rw [map_rateBetween_flipped h hsample (hturns rfl)]
    | rate => rfl
    | acceleration => rfl
  rw [firstOffset_eq, firstOffset_eq, hrates]

/-! ## Searches -/

theorem attemptAt_flipped {offset : Stamped ℝ (Coordinates ℝ)}
    (hoffset : offset.motion.rotation.Normalized) (h : List.Forall₂ Flipped sample others)
    (hsample : ∀ point ∈ sample, point.motion.rotation.Normalized)
    (hclear : Unambiguous (singularityThreshold (sample.length : ℝ)) 1 (.identity (.exact ε))
      (sample.map (remainder (.exact ε) time offset.motion))) :
    attemptAt (.exact ε) trust time others offset
      = attemptAt (.exact ε) trust time sample offset := by
  have hattempt := attemptFrom_represented ε trust (represented_remainders hoffset hsample h)
    (one_mul (1 : ℝ)) (one_mul (1 : ℝ)) hclear
  rw [one_mul, Quaternion.one_smul] at hattempt
  rw [attemptAt, attemptAt, attempt, attempt, residuals_exact, residuals_exact, ← h.length_eq]
  exact hattempt

/-! ## A kept attitude -/

/-- An attitude that is kept for a second. -/
noncomputable def kept : List (Stamped ℝ (Coordinates ℝ)) :=
  [⟨0, .tilt, 0, 0⟩, ⟨1, .tilt, 0, 0⟩]

theorem normalized_kept : ∀ point ∈ kept, point.motion.rotation.Normalized := by
  simp [kept, Quaternion.normalized_tilt]

theorem firstOffset_kept :
    firstOffset (.exact ε) .rotation time kept = .ok (offsetOf time 0 0) := by
  have hmean : Vec3.mean [0] = (0 : Vec3 ℝ) := mean_replicate one_pos 0
  have hrest : meanRate (.exact ε) .rotation kept = .ok 0 := by
    rw [meanRate_eq]
    simp [kept, rateBetween, Coordinates.estimateRate, Quaternion.normalized_tilt.compose_inverse,
      Quaternion.log_one, hmean, Trust.maxOrder]
  rw [firstOffset_eq, hrest]
  rfl

theorem rotation_remainder_kept (t : ℝ) :
    (remainder (.exact ε) time (offsetOf time 0 0).motion
      ⟨t, .tilt, 0, 0⟩).motion.rotation = .tilt :=
  rotation_remainder_rest Quaternion.normalized_tilt

/-- The first attempt for a kept attitude is accepted. -/
theorem accepted_kept (ε time : ℝ) :
    ∃ knots, attemptAt (.exact ε) .rotation time kept (offsetOf time 0 0)
      = .ok (.accepted knots) := by
  rcases attemptAt_total ε time .rotation kept (offsetOf time 0 0) with
    haccepted | ⟨point, hpoint, hlarge, _⟩
  · exact haccepted
  · obtain rfl := List.mem_singleton.mp hpoint
    have hthreshold := min_le_right (-Real.cos (2 * Real.pi / (kept.length : ℝ) / 4)) (-(1 - 1e-4))
    rw [← singularityThreshold_eq] at hthreshold
    rw [rotation_remainder_kept, Quaternion.tilt] at hlarge
    norm_num at hlarge hthreshold
    linarith

theorem unambiguousSearch_kept : UnambiguousSearch (.exact ε) .rotation time kept := by
  intro first hfirst k _ hmade
  rw [firstOffset_kept] at hfirst
  cases hfirst
  cases k with
  | zero =>
    have hidentity : Quaternion.tilt.dot (.identity (.exact ε)) ≠ 0 := by
      norm_num [Quaternion.identity_exact, Quaternion.tilt, Quaternion.dot_eq]
    have htilt : Quaternion.tilt.dot .tilt ≠ 0 := by
      norm_num [Quaternion.tilt, Quaternion.dot_eq]
    simp only [kept, Function.iterate_zero_apply, List.map_cons, List.map_nil, Unambiguous,
      rotation_remainder_kept]
    exact ⟨hidentity, fun _ => ⟨htilt, fun _ => trivial⟩⟩
  | succ k =>
    obtain ⟨instant, scalarPart, hrefused⟩ := hmade 0 (Nat.succ_pos k)
    obtain ⟨knots, haccepted⟩ := accepted_kept ε time
    rw [Function.iterate_zero_apply, haccepted] at hrefused
    cases hrefused

/-! ## Interpolation -/

/-- Representatives of the rotations of a sample do not matter: the motion is the same, after the
same restarts, unless a dot product that selects a sign is zero or a rate is estimated from a half
turn. -/
theorem interpolate_antipodal (h : List.Forall₂ Flipped sample others)
    (hsample : ∀ point ∈ sample, point.motion.rotation.Normalized)
    (hclear : UnambiguousSearch (.exact ε) trust time sample)
    (hturns : trust = .rotation → ∀ pair ∈ sample.zip sample.tail,
      (pair.2.motion.rotation.compose pair.1.motion.rotation.inverse).w ≠ 0) :
    interpolate (.exact ε) trust time others = interpolate (.exact ε) trust time sample := by
  have hsettle : settle (.exact ε) trust time others = settle (.exact ε) trust time sample := by
    refine settle_congr ε time h.length_eq.symm (firstOffset_flipped h hsample hturns) ?_
    intro first hoffset k hk hmade
    exact attemptAt_flipped (normalized_attempted ε time hoffset sample.length k) h hsample
      (hclear first hoffset k hk hmade)
  rw [interpolate, interpolate, hsettle]

/-- The second representative of a kept attitude may be the other one. -/
theorem interpolate_kept_antipodal :
    interpolate (.exact 0) .rotation (1 / 2) [⟨0, .tilt, 0, 0⟩, ⟨1, -.tilt, 0, 0⟩]
      = interpolate (.exact 0) .rotation (1 / 2) kept := by
  have hflipped : List.Forall₂ Flipped kept [⟨0, .tilt, 0, 0⟩, ⟨1, -.tilt, 0, 0⟩] :=
    .cons (.inl rfl) (.cons (.inr rfl) .nil)
  have hturn : (Quaternion.tilt.compose Quaternion.tilt.inverse).w ≠ 0 := by
    rw [Quaternion.normalized_tilt.compose_inverse]
    exact one_ne_zero
  refine interpolate_antipodal hflipped normalized_kept unambiguousSearch_kept fun _ => ?_
  simpa [kept] using hturn

end Interpolation

end AngularMotion
