import AngularMotion.Proofs.Interpolation.Antipodal
import AngularMotion.Proofs.Interpolation.Curve
import AngularMotion.Proofs.Interpolation.Spin
import AngularMotion.Proofs.Interpolation.Trusted
import AngularMotion.Proofs.Quaternion.Logarithm

/-!
# Interpolation of a revolution

A revolution turns about a fixed axis at a constant speed. The offset that is built for it turns
about the same axis at the same speed, so that it leaves one rotation of every point
(`remainder_pointAt`). Up to the representative the residuals are equal; they are kept with one sign
(`attemptOn_constant`), and the curve through equal knots is constant (`curve_constant`).

* `interpolate_revolution`: a revolution is interpolated exactly at the first attempt, whichever
  representatives of its rotations are given.
-/

namespace AngularMotion

section Definitions

variable {α : Type} [Elementary α] [Storable α] [Zero α] [One α] [Add α] [Sub α] [Mul α] [Neg α]
  [Div α] [OfNat α 2] [LT α] [DecidableLT α]

/-- A turn about a fixed axis at a constant speed, from an angle at the instant zero on. -/
structure Revolution (α : Type) [Elementary α] [Storable α] [One α] [Mul α] where
  axis : Vec3 α
  unit : axis.norm = 1
  angle : α
  speed : α

namespace Revolution

def rate (m : Revolution α) : Vec3 α := m.speed • m.axis

/-- The revolution at an instant. -/
def pointAt (p : Working α) (m : Revolution α) (t : α) : Stamped α (Coordinates α) :=
  ⟨t, ⟨.ofRotationVector p ((m.angle + m.speed * t) • m.axis), m.rate, 0⟩⟩

/-- A point with one of the representatives of the rotation at its instant, and with the derivatives
of the revolution as far as they are trusted. -/
structure Passes (p : Working α) (m : Revolution α) (trust : Trust)
    (point : Stamped α (Coordinates α)) : Prop where
  rotation : point.motion.rotation = (m.pointAt p point.time).motion.rotation
    ∨ point.motion.rotation = -(m.pointAt p point.time).motion.rotation
  rate : 1 ≤ trust.maxOrder → point.motion.rate = m.rate
  acceleration : 2 ≤ trust.maxOrder → point.motion.acceleration = 0

/-- A point with the derivatives of the revolution. -/
def complete {τ : Type} (m : Revolution α) (point : Stamped τ (Coordinates α)) :
    Stamped τ (Coordinates α) :=
  ⟨point.time, point.motion.rotation, m.rate, 0⟩

/-- What is left of a point when the offset is taken from it: the rotation at the target. -/
def restAt (p : Working α) (m : Revolution α) (time t : α) : Interpolation.Residual α α :=
  ⟨t, t - time, (m.pointAt p time).motion.rotation, 0, 0⟩

/-- The points at the instants zero and one. The second one has the other representative of its
rotation, and derivatives of another motion. -/
def glimpses (p : Working α) (m : Revolution α) : List (Stamped α (Coordinates α)) :=
  [m.pointAt p 0, ⟨1, -(m.pointAt p 1).motion.rotation, m.axis, m.axis⟩]

/-- From each instant to the next there is less than half a turn, and either none or enough for its
axis to be read. -/
def Resolves [OfScientific α] (m : Revolution α) (instants : List α) : Prop :=
  ∀ pair ∈ instants.zip instants.tail,
    let half := Elementary.abs (m.speed * (pair.2 - pair.1)) / 2
    half < Elementary.pi / 2 ∧ (Elementary.sin half = 0 ∨ 1e-15 < Elementary.sin half)

end Revolution

end Definitions

namespace Interpolation

variable {ε time : ℝ} {trust : Trust} {threshold : ℝ}

/-! ## Equal residuals -/

theorem signAfter_self {q : Quaternion ℝ} (hq : q.Normalized) {sign : ℝ} (hsign : sign * sign = 1) :
    signAfter sign q q = sign := by
  have hdot : q.dot q = 1 := hq
  rw [signAfter, hdot, one_mul, direction_eq]
  rcases mul_self_eq_one_iff.mp hsign with rfl | rfl <;> norm_num

theorem unambiguous_constant (threshold sign : ℝ) {q : Quaternion ℝ} (hq : q.Normalized)
    {rs : List (Residual ℝ ℝ)} (hrs : ∀ r ∈ rs, r.motion.rotation = q) :
    Unambiguous threshold sign q rs := by
  have hdot : q.dot q = 1 := hq
  induction rs generalizing sign with
  | nil => trivial
  | cons r rs ih =>
    obtain ⟨hr, hrest⟩ := List.forall_mem_cons.mp hrs
    refine ⟨?_, fun _ => ?_⟩
    · rw [hr, hdot]
      exact one_ne_zero
    · rw [hr]
      exact ih _ hrest

/-- Residuals of one rotation are all kept with one sign. -/
theorem attemptFrom_constant {q : Quaternion ℝ} (hq : q.Normalized) {rs : List (Residual ℝ ℝ)}
    (hrs : ∀ r ∈ rs, r.motion.rotation = q) {sign : ℝ} (hsign : sign * sign = 1)
    (hkept : ¬ q.w * sign < threshold) :
    attemptFrom (.exact ε) trust threshold sign q (rs.map .ok)
      = .ok (.accepted (rs.map (knotOf trust sign))) := by
  induction rs with
  | nil => rfl
  | cons r rs ih =>
    obtain ⟨hr, hrest⟩ := List.forall_mem_cons.mp hrs
    rw [List.map_cons, attemptFrom_cons, hr, signAfter_self hq hsign, if_neg hkept, ih hrest]
    rfl

variable (ε trust) in
/-- Residuals with representatives of one rotation are all kept, with the knots that one of the
representatives gives throughout. -/
theorem attemptOn_constant {q : Quaternion ℝ} (hq : q.Normalized) {rs others : List (Residual ℝ ℝ)}
    (h : List.Forall₂ Represented rs others) (hne : rs ≠ [])
    (hrs : ∀ r ∈ rs, r.motion.rotation = q) (hthreshold : threshold < 0) :
    ∃ sign : ℝ, sign * sign = 1 ∧ 0 ≤ sign * q.w
      ∧ attemptOn (.exact ε) trust threshold (others.map .ok)
        = .ok (.accepted (rs.map (knotOf trust sign))) := by
  cases h with
  | nil => exact absurd rfl hne
  | @cons r other rs others hrepresented hrest =>
    obtain ⟨s, hs, rfl⟩ := hrepresented
    obtain ⟨hr, hothers⟩ := List.forall_mem_cons.mp hrs
    -- The sign of the first residual, carried over to `q`, is the one for all.
    let first := signAfter 1 (.identity (.exact ε)) (s • q)
    have hfirst : first * first = 1 := direction_mul_self _
    have hsign : s * first * (s * first) = 1 := by
      linear_combination first * first * hs + hfirst
    have hselected : s * (s * first) = first := by linear_combination first * hs
    have hscalar : q.w * (s * first) = |(s • q).w| := by
      rw [← w_mul_signAfter_identity ε, Quaternion.smul_w, ← mul_assoc, mul_comm q.w]
    have hkept : ¬ q.w * (s * first) < threshold := by
      rw [hscalar]
      exact not_lt.mpr (hthreshold.le.trans (abs_nonneg _))
    have hkept' : ¬ (s • q).w * first < threshold := by
      rwa [Quaternion.smul_w, mul_comm s, mul_assoc]
    have hrotation : (r.withSign s).motion.rotation = s • q := by
      rw [← hr]
      rfl
    have hknot : knotOf trust (s * (s * first)) (r.withSign s) = knotOf trust (s * first) r :=
      knotOf_withSign hs (s * first) r
    have hfollowing := attemptFrom_represented ε trust hrest hs hsign
      (unambiguous_constant threshold (s * first) hq hothers)
    rw [hselected] at hknot hfollowing
    refine ⟨s * first, hsign, by rw [mul_comm, hscalar]; exact abs_nonneg _, ?_⟩
    rw [attemptOn, List.map_cons, attemptFrom_cons, hrotation, if_neg hkept', hknot, hfollowing,
      attemptFrom_constant hq hothers hsign hkept]
    rfl

/-! ## The curve -/

/-- The modified Rodrigues vector of a motion at rest has no derivatives. -/
theorem encode_rest (q : Quaternion ℝ) (sign : ℝ) :
    Rodrigues.encode ⟨q, 0, 0⟩ sign = ⟨(Rodrigues.encode ⟨q, 0, 0⟩ sign).value, 0, 0⟩ := by
  ext <;> simp [Rodrigues.encode, Quaternion.ofVector, Quaternion.product, Vec3.dot_eq, Vec3.cross]

theorem component_rest {r : Vec3 ℝ} {knots : List (Knot ℝ)}
    (hnodup : (knots.map (·.abscissa)).Nodup) (hne : knots ≠ [])
    (hrows : ∀ k ∈ knots, k.rows = [r, 0, 0].take (trust.maxOrder + 1)) {part : Vec3 ℝ → ℝ}
    (hpart : part 0 = 0) : component part knots = .C (part r) := by
  refine component_const hnodup hne fun k hk => ⟨?_, ?_⟩
  · rw [hrows k hk, List.take_succ_cons]
    exact List.cons_ne_nil _ _
  · intro j hj
    have hsmall : j < 3 := by
      rw [hrows k hk, List.length_take] at hj
      exact hj.trans_le (min_le_right _ _)
    rw [List.getElem_of_eq (hrows k hk), List.getElem_take]
    interval_cases j
    · rfl
    · exact hpart
    · exact hpart

/-- The curve through equal knots at rest stays there. -/
theorem curve_constant {q : Quaternion ℝ} (hq : q.Normalized) {sign : ℝ} (hsign : sign * sign = 1)
    (hw : 0 ≤ sign * q.w) {rs : List (Residual ℝ ℝ)} (hne : rs ≠ [])
    (hnodup : (rs.map (·.abscissa)).Nodup) (hrs : ∀ r ∈ rs, r.motion = ⟨q, 0, 0⟩) (x : ℝ) :
    curve (.exact ε) (rs.map (knotOf trust sign)) x = ⟨sign • q, 0, 0⟩ := by
  let vector := (Rodrigues.encode ⟨q, 0, 0⟩ sign).value
  have hdecode : Rodrigues.decode ⟨vector, 0, 0⟩ = ⟨sign • q, 0, 0⟩ := by
    rw [← encode_rest]
    exact Rodrigues.decode_encode hq hsign (by linarith)
  have habscissae : (rs.map (knotOf trust sign)).map (·.abscissa) = rs.map (·.abscissa) := by
    rw [List.map_map]
    rfl
  have hrows : ∀ k ∈ rs.map (knotOf trust sign),
      k.rows = [vector, 0, 0].take (trust.maxOrder + 1) := by
    intro k hk
    obtain ⟨r, hr, rfl⟩ := List.mem_map.mp hk
    rw [knotOf, hrs r hr, encode_rest]
    rfl
  have hcomponent : ∀ part : Vec3 ℝ → ℝ, part 0 = 0 →
      component part (rs.map (knotOf trust sign)) = .C (part vector) :=
    fun part => component_rest (habscissae ▸ hnodup) (by simpa using hne) hrows
  have htrack : ∀ p, track (rs.map (knotOf trust sign)) p x = if p = 0 then vector else 0 := by
    intro p
    rw [track, hcomponent Vec3.x rfl, hcomponent Vec3.y rfl, hcomponent Vec3.z rfl]
    cases p with
    | zero => simp
    | succ p => simp [Polynomial.iterate_derivative_C]; rfl
  rw [curve_eq, htrack, htrack, htrack, ← hdecode]
  rfl

/-! ## Points of a revolution -/

variable (m : Revolution ℝ)

theorem pointAt_exact (t : ℝ) :
    m.pointAt (.exact ε) t
      = ⟨t, ⟨.exp ((m.angle + m.speed * t) • m.axis), m.rate, 0⟩⟩ := rfl

theorem normalized_pointAt (ε t : ℝ) : (m.pointAt (.exact ε) t).motion.rotation.Normalized :=
  Quaternion.normalized_exp _

/-- A revolution leaves its axis as it is. -/
theorem exp_apply_rate (angle : ℝ) : (Quaternion.exp (angle • m.axis)).apply m.rate = m.rate := by
  rw [Revolution.rate, Quaternion.apply_smul, Quaternion.exp_apply_self]

/-- A revolution is a spin from its attitude at the instant zero on. -/
theorem pointAt_eq_spinPoint (t : ℝ) :
    m.pointAt (.exact ε) t = spinPoint (.exact ε) (.exp (m.angle • m.axis)) m.rate t := by
  rw [spinPoint_exact, pointAt_exact, Revolution.rate, Vec3.smul_smul, Quaternion.exp_compose_exp,
    mul_comm t, add_comm]

/-- The offset leaves the same of every point, at rest. -/
theorem remainder_pointAt (t : ℝ) :
    remainder (.exact ε) time (offsetOf time 0 m.rate).motion (m.pointAt (.exact ε) t)
      = m.restAt (.exact ε) time t := by
  have hq := Quaternion.normalized_exp (m.angle • m.axis)
  have hfixed := exp_apply_rate m m.angle
  have hrotation := rotation_remainder_spin_of_fixed ε time hq hfixed t
  have hrate := rate_remainder_spin ε time hq m.rate t
  rw [hfixed, (Vec3.sub_eq_zero_iff _ _).mpr rfl, Quaternion.apply_zero] at hrate
  have hacceleration : (remainder (.exact ε) time (offsetOf time 0 m.rate).motion
      (spinPoint (.exact ε) (.exp (m.angle • m.axis)) m.rate t)).motion.acceleration = 0 := by
    have hneg : -(0 : Vec3 ℝ) = 0 := by
      ext <;> simp
    rw [remainder, spinPoint_exact, shiftedBy_offsetOf_zero]
    simp only [Coordinates.subtractOffset, Coordinates.addOffset, Coordinates.revert, hneg,
      Quaternion.applyInverse, Quaternion.apply_zero, Vec3.add_zero]
  rw [Revolution.restAt, pointAt_eq_spinPoint, pointAt_eq_spinPoint]
  exact congrArg (fun c => (⟨t, t - time, c⟩ : Residual ℝ ℝ))
    (Coordinates.ext hrotation hrate hacceleration)

/-- The offset puts the rate back. -/
theorem addOffset_pointAt {sign : ℝ} (hsign : sign * sign = 1) :
    (⟨sign • (m.pointAt (.exact ε) time).motion.rotation, 0, 0⟩ : Coordinates ℝ).addOffset
        (offsetOf time 0 m.rate).motion
      = (m.pointAt (.exact ε) time).motion.withSign sign := by
  have hnormalized := normalized_pointAt m ε time
  have hrate : (m.pointAt (.exact ε) time).motion.rotation.apply m.rate = m.rate :=
    exp_apply_rate m _
  have hzero : ∀ u : Vec3 ℝ, 0 + u = u := by
    intro u
    ext <;> simp
  simp only [Coordinates.addOffset, offsetOf, Quaternion.turned_zero,
    (hnormalized.smul hsign).compose_one, Quaternion.smul_apply hsign, hrate,
    Quaternion.apply_zero, hzero]
  rfl

variable {m}

/-- Derivatives that are not trusted may as well be those of the revolution. -/
theorem trusted_complete {point : Stamped ℝ (Coordinates ℝ)}
    (h : m.Passes (.exact ε) trust point) :
    (m.complete point).trusted trust = point.trusted trust :=
  Stamped.Alike.trusted_eq ⟨rfl, rfl, fun horder => (h.rate horder).symm,
    fun horder => (h.acceleration horder).symm⟩

theorem flipped_complete {point : Stamped ℝ (Coordinates ℝ)}
    (h : m.Passes (.exact ε) trust point) :
    Flipped (m.pointAt (.exact ε) point.time) (m.complete point) := by
  rcases h.rotation with hrotation | hrotation
  · left
    rw [Revolution.complete, hrotation]
    rfl
  · right
    rw [Revolution.complete, hrotation]
    rfl

theorem flipped_withSign {sign : ℝ} (hsign : sign * sign = 1)
    (point : Stamped ℝ (Coordinates ℝ)) :
    Flipped point ⟨point.time, point.motion.withSign sign⟩ := by
  rcases mul_self_eq_one_iff.mp hsign with rfl | rfl
  · left
    rw [Coordinates.withSign_one]
  · right
    rw [Coordinates.antipode_eq]

/-! ## The mean rate -/

variable {sample : List (Stamped ℝ (Coordinates ℝ))}

/-- The turn between two points is read as it is, whichever representatives they have. -/
theorem rateBetween_revolution {a b : Stamped ℝ (Coordinates ℝ)}
    (ha : Flipped (m.pointAt (.exact ε) a.time) a) (hb : Flipped (m.pointAt (.exact ε) b.time) b)
    (hne : b.time - a.time ≠ 0) (hhalf : |m.speed * (b.time - a.time)| / 2 < Real.pi / 2)
    (hread : Real.sin (|m.speed * (b.time - a.time)| / 2) = 0
      ∨ 1e-15 < Real.sin (|m.speed * (b.time - a.time)| / 2)) :
    rateBetween (.exact ε) (a, b) = m.rate := by
  let θ := m.speed * (b.time - a.time)
  have hturn : (m.pointAt (.exact ε) b.time).motion.rotation.compose
      (m.pointAt (.exact ε) a.time).motion.rotation.inverse = .exp (θ • m.axis) := by
    rw [pointAt_exact, pointAt_exact]
    simp only [Quaternion.inverse_exp, Quaternion.exp_compose_exp]
    congr 2
    ring
  have hw : (Quaternion.exp (θ • m.axis)).w ≠ 0 := by
    rw [Quaternion.exp_smul_of_unit m.unit]
    refine (Real.cos_pos_of_mem_Ioo (abs_lt.mp ?_)).ne'
    rwa [abs_div, abs_two]
  rw [rateBetween_flipped (normalized_pointAt m ε a.time) (normalized_pointAt m ε b.time)
    (hturn ▸ hw) ha hb]
  have hlog : rateBetween (.exact ε) (m.pointAt (.exact ε) a.time, m.pointAt (.exact ε) b.time)
      = (θ • m.axis) / (b.time - a.time) := by
    rw [← Quaternion.log_exp_smul m.unit hhalf hread, ← hturn]
    rfl
  rw [hlog, Revolution.rate]
  ext <;> simp [θ] <;> field_simp

/-- The mean rate of points of a revolution is its rate. -/
theorem meanRate_revolution (hne : sample ≠ []) (hnodup : (sample.map (·.time)).Nodup)
    (hpoints : ∀ point ∈ sample, Flipped (m.pointAt (.exact ε) point.time) point)
    (hrates : trust = .rotation → 2 ≤ sample.length ∧ m.Resolves (sample.map (·.time))) :
    meanRate (.exact ε) trust sample = .ok m.rate := by
  rw [meanRate_eq, if_neg (by simpa using hne)]
  split
  · have htrusted : sample.map (·.motion.rate) = List.replicate sample.length m.rate := by
      rw [List.eq_replicate_iff, List.length_map]
      refine ⟨rfl, fun rate hrate => ?_⟩
      obtain ⟨point, hpoint, rfl⟩ := List.mem_map.mp hrate
      obtain ⟨s, _, hs⟩ := (hpoints point hpoint).exists_sign
      rw [hs]
      rfl
    rw [htrusted, mean_replicate (List.length_pos_iff.mpr hne)]
  · rename_i horder
    have htrust : trust = .rotation := by
      cases trust <;> simp_all [Trust.maxOrder]
    obtain ⟨hlength, hresolves⟩ := hrates htrust
    have hestimated : (sample.zip sample.tail).map (rateBetween (.exact ε))
        = List.replicate (sample.length - 1) m.rate := by
      rw [List.eq_replicate_iff, List.length_map, List.length_zip, List.length_tail]
      refine ⟨min_eq_right (Nat.sub_le _ 1), fun rate hrate => ?_⟩
      obtain ⟨pair, hpair, rfl⟩ := List.mem_map.mp hrate
      obtain ⟨hfirst, hsecond⟩ := List.of_mem_zip hpair
      have hinstants : (pair.1.time, pair.2.time)
          ∈ (sample.map (·.time)).zip (sample.map (·.time)).tail := by
        rw [← List.map_tail, List.zip_map]
        exact List.mem_map_of_mem hpair
      obtain ⟨hhalf, hread⟩ := hresolves _ hinstants
      exact rateBetween_revolution (hpoints _ hfirst) (hpoints _ (List.mem_of_mem_tail hsecond))
        (sub_ne_zero_of_mem_zip_tail hnodup hinstants) hhalf hread
    rw [if_neg (not_lt.mpr hlength), hestimated, mean_replicate (by omega)]

/-! ## Interpolation -/

/-- The attempt on the first offset is accepted, with knots at rest. -/
theorem attemptAt_revolution (ε time : ℝ) (trust : Trust) (hne : sample ≠ [])
    (hpoints : ∀ point ∈ sample, Flipped (m.pointAt (.exact ε) point.time) point) :
    ∃ sign : ℝ, sign * sign = 1 ∧ 0 ≤ sign * (m.pointAt (.exact ε) time).motion.rotation.w
      ∧ attemptAt (.exact ε) trust time sample (offsetOf time 0 m.rate)
        = .ok (.accepted ((sample.map fun point => m.restAt (.exact ε) time point.time).map
            (knotOf trust sign))) := by
  have hrepresented : List.Forall₂ Represented
      (sample.map fun point => m.restAt (.exact ε) time point.time)
      (sample.map (remainder (.exact ε) time (offsetOf time 0 m.rate).motion)) := by
    rw [List.forall₂_map_left_iff, List.forall₂_map_right_iff, List.forall₂_same]
    intro point hpoint
    rw [← remainder_pointAt]
    exact represented_remainder (Quaternion.normalized_turned 0) (normalized_pointAt m ε _)
      (hpoints point hpoint)
  obtain ⟨sign, hsign, hw, haccepted⟩ := attemptOn_constant ε trust
    (normalized_pointAt m ε time) hrepresented (by simpa using hne) (by simp [Revolution.restAt])
    (singularityThreshold_neg (sample.length : ℝ))
  refine ⟨sign, hsign, hw, ?_⟩
  rw [attemptAt, attempt, residuals_exact, haccepted]

/-- The curve of the first attempt is the rotation at the target. -/
theorem curve_revolution (trust : Trust) (hne : sample ≠ [])
    (hnodup : (sample.map (·.time)).Nodup) {sign : ℝ} (hsign : sign * sign = 1)
    (hw : 0 ≤ sign * (m.pointAt (.exact ε) time).motion.rotation.w) :
    curve (.exact ε) ((sample.map fun point => m.restAt (.exact ε) time point.time).map
        (knotOf trust sign)) 0
      = ⟨sign • (m.pointAt (.exact ε) time).motion.rotation, 0, 0⟩ := by
  refine curve_constant (normalized_pointAt m ε time) hsign hw (by simpa using hne) ?_ ?_ 0
  · have hshifted := hnodup.map (sub_left_injective (b := time))
    rwa [List.map_map] at hshifted ⊢
  · intro r hr
    obtain ⟨point, _, rfl⟩ := List.mem_map.mp hr
    rfl

/-- A revolution is interpolated exactly, at the first attempt and at any target: by one of the
representatives of its rotation, by its rate and without acceleration. Where rates are not trusted,
its points must be close enough for them to be estimated. -/
theorem interpolate_revolution (hne : sample ≠ []) (hnodup : (sample.map (·.time)).Nodup)
    (hpasses : ∀ point ∈ sample, m.Passes (.exact ε) trust point)
    (hrates : trust = .rotation → 2 ≤ sample.length ∧ m.Resolves (sample.map (·.time))) :
    AcceptsFirst (.exact ε) trust time sample
      ∧ ∃ result, interpolate (.exact ε) trust time sample = ⟨[], .ok result⟩
        ∧ Flipped (m.pointAt (.exact ε) time) result := by
  -- The attempts on the sample are those on one with all derivatives of the revolution.
  let points := sample.map m.complete
  have htrusted : points.map (·.trusted trust) = sample.map (·.trusted trust) := by
    rw [List.map_map]
    exact List.map_congr_left fun point hpoint => trusted_complete (hpasses point hpoint)
  have hpoints : ∀ point ∈ points, Flipped (m.pointAt (.exact ε) point.time) point := by
    intro point hpoint
    obtain ⟨given, hgiven, rfl⟩ := List.mem_map.mp hpoint
    exact (flipped_complete (hpasses given hgiven) :)
  have htimes : points.map (·.time) = sample.map (·.time) := by
    rw [List.map_map]
    rfl
  have hlength : points.length = sample.length := List.length_map _
  have hpointsne : points ≠ [] := by simpa [points] using hne
  rw [← htimes] at hnodup hrates
  rw [← hlength] at hrates
  have hfirst : firstOffset (.exact ε) trust time sample = .ok (offsetOf time 0 m.rate) := by
    rw [← firstOffset_trusted, ← htrusted, firstOffset_trusted, firstOffset_eq,
      meanRate_revolution hpointsne hnodup hpoints hrates]
    rfl
  obtain ⟨sign, hsign, hw, haccepted⟩ := attemptAt_revolution ε time trust hpointsne hpoints
  rw [attemptAt, ← attempt_trusted, htrusted, attempt_trusted, hlength, ← attemptAt] at haccepted
  refine ⟨⟨_, _, hfirst, haccepted⟩, ⟨time, (m.pointAt (.exact ε) time).motion.withSign sign⟩, ?_,
    flipped_withSign hsign _⟩
  rw [interpolate, settle_of_accepted ε time hfirst haccepted, ← addOffset_pointAt m hsign,
    ← curve_revolution trust hpointsne hnodup hsign hw]
  rfl

/-- A radian in a second about the second axis. -/
noncomputable def wheel : Revolution ℝ where
  axis := ⟨0, 1, 0⟩
  unit := by simp [Vec3.norm, Elementary.sqrt, Storable.total]
  angle := 1
  speed := 1

/-- The rotations of the wheel, the second one by its other representative, are enough for its
motion some turns later. -/
theorem interpolate_wheel :
    AcceptsFirst (.exact 0) .rotation 30 (wheel.glimpses (.exact 0))
      ∧ ∃ result, interpolate (.exact 0) .rotation 30 (wheel.glimpses (.exact 0))
          = ⟨[], .ok result⟩
        ∧ Flipped (wheel.pointAt (.exact 0) 30) result := by
  have hpasses : ∀ point ∈ wheel.glimpses (.exact 0),
      wheel.Passes (.exact 0) .rotation point := by
    intro point hpoint
    rcases List.mem_pair.mp hpoint with rfl | rfl
    · exact ⟨.inl rfl, nofun, nofun⟩
    · exact ⟨.inr rfl, nofun, nofun⟩
  have hresolves : wheel.Resolves ((wheel.glimpses (.exact 0)).map (·.time)) := by
    intro pair hpair
    obtain rfl : pair = (0, 1) := by
      simpa [Revolution.glimpses, Revolution.pointAt] using hpair
    have hangle : |(1 : ℝ) * (1 - 0)| / 2 = 1 / 2 := by norm_num
    refine ⟨?_, .inr ?_⟩
    · change |(1 : ℝ) * (1 - 0)| / 2 < Real.pi / 2
      rw [hangle]
      linarith [Real.two_le_pi]
    · change 1e-15 < Real.sin (|(1 : ℝ) * (1 - 0)| / 2)
      rw [hangle]
      refine lt_trans ?_ (Real.sin_gt_sub_cube one_half_pos)
      norm_num
  exact interpolate_revolution (by simp [Revolution.glimpses])
    (by simp [Revolution.glimpses, Revolution.pointAt]) hpasses
    fun _ => ⟨by simp [Revolution.glimpses], hresolves⟩

end Interpolation

end AngularMotion
