import AngularMotion.Proofs.Interpolation.Search
import Mathlib.Combinatorics.Pigeonhole

/-!
# The singularity is avoided

Seen over the restarts, the scalar part of a residual is a sinusoid of the angle of the offset
(`exists_sinusoid`). Two restarts put it beyond the threshold only if their angles differ by less
than that between neighbours (`beyond_once`), so each point refuses at most one of as many attempts
as there are points. The first point refuses none, and an attempt is left (`exists_accepted`).

* `interpolate_settles`: an interpolation has a result, before the spare attempts are needed, unless
  there are too few points for the first offset.
-/

namespace AngularMotion.Interpolation

/-! ## Sinusoids -/

theorem sinusoid_identity (a b φ δ : ℝ) :
    (a * Real.cos φ + b * Real.sin φ) ^ 2 + (a * Real.cos (φ + δ) + b * Real.sin (φ + δ)) ^ 2
        - 2 * (a * Real.cos φ + b * Real.sin φ) * (a * Real.cos (φ + δ) + b * Real.sin (φ + δ))
          * Real.cos δ
      = (a * a + b * b) * Real.sin δ ^ 2 := by
  simp only [Real.cos_add, Real.sin_add]
  linear_combination -(a * Real.cos φ + b * Real.sin φ) ^ 2 * Real.sin_sq_add_cos_sq δ
    + Real.sin δ ^ 2 * (a * a + b * b) * Real.sin_sq_add_cos_sq φ

/-- A sinusoid of amplitude at most one is beyond a bound only at angles that are close. -/
theorem bound_of_beyond {a b c φ δ : ℝ} (hab : a * a + b * b ≤ 1) (hc : 0 ≤ c)
    (hδ : |Real.cos δ| < 1) (hu : c < |a * Real.cos φ + b * Real.sin φ|)
    (hv : c < |a * Real.cos (φ + δ) + b * Real.sin (φ + δ)|) :
    2 * c ^ 2 < 1 + |Real.cos δ| := by
  have hidentity := sinusoid_identity a b φ δ
  set u := a * Real.cos φ + b * Real.sin φ
  set v := a * Real.cos (φ + δ) + b * Real.sin (φ + δ)
  set m := |Real.cos δ|
  have hsin : Real.sin δ ^ 2 = (1 - m) * (1 + m) := by
    have hm : m ^ 2 = Real.cos δ ^ 2 := sq_abs _
    linear_combination Real.sin_sq_add_cos_sq δ + hm
  have hcross : 2 * u * v * Real.cos δ ≤ m * (u ^ 2 + v ^ 2) := by
    calc
      2 * u * v * Real.cos δ ≤ |2 * u * v * Real.cos δ| := le_abs_self _
      _ = m * (2 * |u| * |v|) := by
        rw [abs_mul, abs_mul, abs_mul, abs_two]
        ring
      _ ≤ m * (u ^ 2 + v ^ 2) := by
        refine mul_le_mul_of_nonneg_left ?_ (abs_nonneg _)
        rw [← sq_abs u, ← sq_abs v]
        exact two_mul_le_add_sq _ _
  have hu2 : c ^ 2 < u ^ 2 := by
    rw [← sq_abs u]
    exact pow_lt_pow_left₀ hu hc two_ne_zero
  have hv2 : c ^ 2 < v ^ 2 := by
    rw [← sq_abs v]
    exact pow_lt_pow_left₀ hv hc two_ne_zero
  have hm1 : 0 < 1 - m := sub_pos.mpr hδ
  have hlarge : (1 - m) * (2 * c ^ 2) < (1 - m) * (1 + m) := by
    calc
      (1 - m) * (2 * c ^ 2) < (1 - m) * (u ^ 2 + v ^ 2) :=
        mul_lt_mul_of_pos_left (by linarith) hm1
      _ ≤ u ^ 2 + v ^ 2 - 2 * u * v * Real.cos δ := by linarith
      _ = (a * a + b * b) * Real.sin δ ^ 2 := hidentity
      _ ≤ Real.sin δ ^ 2 := mul_le_of_le_one_left (sq_nonneg _) hab
      _ = (1 - m) * (1 + m) := hsin
  exact lt_of_mul_lt_mul_left hlarge hm1.le

/-- The angles of two of `n` attempts are far apart. -/
theorem abs_cos_le {n d : Nat} (hd : 0 < d) (hn : d < n) :
    |Real.cos (d * (Real.pi / n))| ≤ Real.cos (Real.pi / n) := by
  have hpos : (0 : ℝ) < n := by exact_mod_cast hd.trans hn
  have hd1 : (1 : ℝ) ≤ d := by exact_mod_cast hd
  have hdn : (d : ℝ) + 1 ≤ n := by exact_mod_cast hn
  have hstep : 0 < Real.pi / n := div_pos Real.pi_pos hpos
  have hwhole : (n : ℝ) * (Real.pi / n) = Real.pi := mul_div_cancel₀ _ hpos.ne'
  have hlow : Real.pi / n ≤ d * (Real.pi / n) := le_mul_of_one_le_left hstep.le hd1
  have hhigh : d * (Real.pi / n) ≤ Real.pi - Real.pi / n := by nlinarith
  refine abs_le'.mpr ⟨?_, ?_⟩
  · exact Real.cos_le_cos_of_nonneg_of_le_pi hstep.le (by linarith) hlow
  · rw [← Real.cos_pi_sub]
    exact Real.cos_le_cos_of_nonneg_of_le_pi hstep.le (by linarith) (by linarith)

/-- Among `n` restarts, a sinusoid of amplitude at most one is beyond the threshold at most once. -/
theorem beyond_once {a b : ℝ} (hab : a * a + b * b ≤ 1) {n j k : Nat} (hjk : j < k) (hk : k < n)
    (hj : -singularityThreshold (n : ℝ)
      < |a * Real.cos (j * (Real.pi / n)) + b * Real.sin (j * (Real.pi / n))|) :
    |a * Real.cos (k * (Real.pi / n)) + b * Real.sin (k * (Real.pi / n))|
      ≤ -singularityThreshold (n : ℝ) := by
  by_contra hlarge
  rw [not_le] at hlarge
  have hsum : (k : ℝ) * (Real.pi / n) = j * (Real.pi / n) + (k - j : Nat) * (Real.pi / n) := by
    rw [Nat.cast_sub hjk.le]
    ring
  rw [hsum] at hlarge
  have hpos : (1 : ℝ) < n := by exact_mod_cast (by omega : 1 < n)
  have hstep : 0 < Real.pi / n := div_pos Real.pi_pos (by linarith)
  have hle : Real.pi / n ≤ Real.pi := div_le_self Real.pi_pos.le hpos.le
  have habs := abs_cos_le (n := n) (d := k - j) (by omega) (by omega)
  have hcos : Real.cos (Real.pi / n) < 1 := by
    rw [← Real.cos_zero]
    exact Real.cos_lt_cos_of_nonneg_of_le_pi le_rfl hle hstep
  have hedge := cos_le_neg_singularityThreshold (n : ℝ)
  have hhalf : 2 * Real.cos (2 * Real.pi / n / 4) ^ 2 = 1 + Real.cos (Real.pi / n) := by
    rw [Real.cos_sq]
    ring_nf
  have hnonneg : 0 ≤ Real.cos (2 * Real.pi / n / 4) := by
    refine Real.cos_nonneg_of_neg_pi_div_two_le_of_le ?_ ?_
    · have : 0 < 2 * Real.pi / n / 4 := by positivity
      linarith [Real.pi_pos]
    · have : 2 * Real.pi / n / 4 = Real.pi / n / 2 := by ring
      linarith
  have hbound := bound_of_beyond hab hnonneg (habs.trans_lt hcos) (hedge.trans_lt hj)
    (hedge.trans_lt hlarge)
  linarith

/-! ## Scalar parts over the restarts -/

/-- The scalar part of a residual is a sinusoid of the angle of the offset. -/
theorem exists_sinusoid (ε time : ℝ) {point : Stamped ℝ (Coordinates ℝ)}
    (h : point.motion.rotation.Normalized) (rate : Vec3 ℝ) :
    ∃ a b : ℝ, a * a + b * b ≤ 1 ∧ ∀ angle,
      (remainder (.exact ε) time (offsetOf time angle rate).motion point).motion.rotation.w
        = a * Real.cos angle + b * Real.sin angle := by
  let spun := Quaternion.exp ((point.time - time) • rate)
  have hspun : spun.Normalized := Quaternion.normalized_exp _
  let g := spun.conjugate.product point.motion.rotation
  have hg := Quaternion.normalized_iff.mp (hspun.conjugate.product h)
  refine ⟨g.w, g.v.x, ?_, ?_⟩
  · nlinarith [mul_self_nonneg g.v.y, mul_self_nonneg g.v.z]
  · intro angle
    have hturn := Quaternion.normalized_turned angle
    have hrotation :
        (remainder (.exact ε) time (offsetOf time angle rate).motion point).motion.rotation.hamilton
          = point.motion.rotation.hamilton
            * (star (Quaternion.turned angle).hamilton * star spun.hamilton) := by
      rw [remainder, shiftedBy_offsetOf, Coordinates.subtractOffset, Coordinates.addOffset,
        Coordinates.revert, h.hamilton_compose (hspun.compose hturn).inverse,
        (hspun.compose hturn).hamilton_inverse, hspun.hamilton_compose hturn, star_mul]
    have hw := congrArg (·.re) hrotation
    have hgw : g.w = (star spun.hamilton * point.motion.rotation.hamilton).re := by
      rw [← Quaternion.hamilton_conjugate, ← Quaternion.hamilton_product]
      rfl
    have hgx : g.v.x = (star spun.hamilton * point.motion.rotation.hamilton).imI := by
      rw [← Quaternion.hamilton_conjugate, ← Quaternion.hamilton_product]
      rfl
    rw [hgw, hgx]
    refine hw.trans ?_
    simp [Quaternion.turned]
    ring

/-- Among `n` restarts, the residual of a point is beyond the threshold at most once. -/
theorem remainder_beyond_once (ε time : ℝ) {point : Stamped ℝ (Coordinates ℝ)}
    (h : point.motion.rotation.Normalized) (rate : Vec3 ℝ) {n j k : Nat} (hjk : j < k) (hk : k < n)
    (hj : -singularityThreshold (n : ℝ) < |(remainder (.exact ε) time
      (offsetOf time (j * (Real.pi / n)) rate).motion point).motion.rotation.w|) :
    |(remainder (.exact ε) time (offsetOf time (k * (Real.pi / n)) rate).motion
      point).motion.rotation.w| ≤ -singularityThreshold (n : ℝ) := by
  obtain ⟨a, b, hab, hscalar⟩ := exists_sinusoid ε time h rate
  rw [hscalar] at hj ⊢
  exact beyond_once hab hjk hk hj

/-! ## Counting the attempts -/

variable (ε time : ℝ) (trust : Trust) {sample : List (Stamped ℝ (Coordinates ℝ))}

/-- One of as many attempts as there are points is accepted. -/
theorem exists_accepted (hsample : ∀ point ∈ sample, point.motion.rotation.Normalized)
    (hne : sample ≠ []) (rate : Vec3 ℝ) :
    ∃ k < sample.length, ∃ knots,
      attemptAt (.exact ε) trust time sample
          ((restart (.exact ε) sample.length)^[k] (offsetOf time 0 rate))
        = .ok (.accepted knots) := by
  classical
  by_contra hall
  have hrefused : ∀ k < sample.length, ∃ point ∈ sample.tail,
      -singularityThreshold (sample.length : ℝ)
        < |(remainder (.exact ε) time (offsetOf time (k * (Real.pi / sample.length)) rate).motion
            point).motion.rotation.w| := by
    intro k hk
    have htotal := attemptAt_total ε time trust sample
      ((restart (.exact ε) sample.length)^[k] (offsetOf time 0 rate))
    rcases htotal with ⟨knots, haccepted⟩ | ⟨point, hpoint, hlarge, _⟩
    · exact absurd ⟨k, hk, knots, haccepted⟩ hall
    · rw [iterate_restart, zero_add] at hlarge
      exact ⟨point, hpoint, hlarge⟩
  have : Nonempty (Stamped ℝ (Coordinates ℝ)) := ⟨sample.head hne⟩
  choose! blocking hmem hlarge using hrefused
  have hcard : sample.tail.toFinset.card < (Finset.range sample.length).card := by
    have hle := List.toFinset_card_le sample.tail
    have hpos := List.length_pos_iff.mpr hne
    rw [List.length_tail] at hle
    rw [Finset.card_range]
    omega
  have hmaps : ∀ k ∈ Finset.range sample.length, blocking k ∈ sample.tail.toFinset := by
    intro k hk
    exact List.mem_toFinset.mpr (hmem k (Finset.mem_range.mp hk))
  obtain ⟨j, hj, k, hk, hjk, hsame⟩ := Finset.exists_ne_map_eq_of_card_lt_of_maps_to hcard hmaps
  rw [Finset.mem_range] at hj hk
  have hpoint := hsample _ (List.mem_of_mem_tail (hmem j hj))
  have hlargek := hlarge k hk
  rw [← hsame] at hlargek
  rcases Nat.lt_or_gt_of_ne hjk with hlt | hgt
  · have hsmall := remainder_beyond_once ε time hpoint rate hlt hk (hlarge j hj)
    exact absurd hsmall (not_le.mpr hlargek)
  · have hsmall := remainder_beyond_once ε time hpoint rate hgt hj hlargek
    exact absurd hsmall (not_le.mpr (hlarge j hj))

/-- A search settles with the first accepted one of as many attempts as there are points. -/
theorem settle_reaches (hsample : ∀ point ∈ sample, point.motion.rotation.Normalized)
    (hfew : ¬ TooFew trust sample) :
    ∃ first, firstOffset (.exact ε) trust time sample = .ok first ∧ ∃ k < sample.length, ∃ knots,
      attemptAt (.exact ε) trust time sample ((restart (.exact ε) sample.length)^[k] first)
          = .ok (.accepted knots)
        ∧ (settle (.exact ε) trust time sample).Reaches
          ⟨(restart (.exact ε) sample.length)^[k] first, knots⟩ k := by
  classical
  obtain ⟨rate, hfirst⟩ := firstOffset_exact ε time trust hfew
  refine ⟨offsetOf time 0 rate, hfirst, ?_⟩
  have hexists := exists_accepted ε time trust hsample (not_or.mp hfew).1 rate
  obtain ⟨hk, knots, haccepted⟩ := Nat.find_spec hexists
  have hrefused : ∀ j < Nat.find hexists, ∃ instant scalarPart,
      attemptAt (.exact ε) trust time sample
          ((restart (.exact ε) sample.length)^[j] (offsetOf time 0 rate))
        = .ok (.tooClose instant scalarPart) := by
    intro j hj
    rcases attemptAt_total ε time trust sample
      ((restart (.exact ε) sample.length)^[j] (offsetOf time 0 rate)) with
      ⟨others, hothers⟩ | ⟨point, _, _, scalarPart, hpoint⟩
    · exact absurd ⟨hj.trans hk, others, hothers⟩ (Nat.find_min hexists hj)
    · exact ⟨point.time, scalarPart, hpoint⟩
  refine ⟨Nat.find hexists, hk, knots, haccepted, ?_⟩
  rw [settle_of_firstOffset ε time hfirst]
  exact searchFrom_first ε time (hk.trans (by rw [attemptLimit]; omega)) hrefused haccepted

/-- Interpolation fails for too small samples only. Otherwise it settles after fewer restarts than
there are points, and reports no failure. -/
theorem interpolate_settles (hsample : ∀ point ∈ sample, point.motion.rotation.Normalized) :
    (∀ fault, (interpolate (.exact ε) trust time sample).result = .error fault ↔
        sample = [] ∧ fault = .emptySample
          ∨ (trust = .rotation ∧ sample.length = 1) ∧ fault = .tooFewForRates 1)
      ∧ (¬ TooFew trust sample →
        ∃ first, firstOffset (.exact ε) trust time sample = .ok first
          ∧ ∃ k < sample.length, ∃ knots,
            attemptAt (.exact ε) trust time sample ((restart (.exact ε) sample.length)^[k] first)
                = .ok (.accepted knots)
              ∧ (interpolate (.exact ε) trust time sample).Reaches
                ⟨time, (curve (.exact ε) knots 0).addOffset
                  ((restart (.exact ε) sample.length)^[k] first).motion⟩ k) := by
  refine ⟨?_, ?_⟩
  · intro fault
    by_cases hfew : TooFew trust sample
    · rcases hfew with rfl | ⟨rfl, hsingle⟩
      · simp [interpolate, settle_empty, Outcome.map, eq_comm]
      · have hne : sample ≠ [] := by
          rintro rfl
          cases hsingle
        simp [interpolate, settle_single ε time hsingle, Outcome.map, hne, hsingle, eq_comm]
    · obtain ⟨first, _, k, _, knots, _, hsettle⟩ := settle_reaches ε time trust hsample hfew
      obtain ⟨hne, hsingle⟩ := not_or.mp hfew
      rw [(interpolate_reaches ε time hsettle).result]
      simp [hne, hsingle]
  · intro hfew
    obtain ⟨first, hfirst, k, hk, knots, haccepted, hsettle⟩ :=
      settle_reaches ε time trust hsample hfew
    have hreaches := interpolate_reaches ε time hsettle
    exact ⟨first, hfirst, k, hk, knots, haccepted, hreaches⟩

/-- Two turns about the first axis, a second apart. -/
noncomputable def twoTurns : List (Stamped ℝ (Coordinates ℝ)) :=
  [⟨0, .turned 0, 0, 0⟩, ⟨1, .turned 1, 0, 0⟩]

theorem normalized_twoTurns : ∀ point ∈ twoTurns, point.motion.rotation.Normalized := by
  simp [twoTurns, Quaternion.normalized_turned]

theorem not_tooFew_twoTurns : ¬ TooFew trust twoTurns := by
  simp [TooFew, twoTurns]

theorem twoTurns_reaches :
    ∃ k < 2, ∃ value, (interpolate (.exact 0) .rotation (1 / 2) twoTurns).Reaches value k := by
  obtain ⟨first, _, k, hk, knots, _, hreaches⟩ :=
    (interpolate_settles 0 (1 / 2) .rotation normalized_twoTurns).2 (not_tooFew_twoTurns .rotation)
  exact ⟨k, hk, _, hreaches⟩

end AngularMotion.Interpolation
