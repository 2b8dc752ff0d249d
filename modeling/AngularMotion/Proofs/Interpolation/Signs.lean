import AngularMotion.Proofs.Interpolation.Search

/-!
# The signs of residuals

An attempt gives each residual a sign that turns it to the side of the one before
(`isChain_signedFrom`), the first one to the side of the identity. Unless a residual is orthogonal to
the one before, no other signs do so (`eq_signedFrom`).

For samples and offsets with normalized rotations this and the distance from the singularity at which
knots are encoded are what one attempt guarantees (`attempt_guarantees`).
-/

namespace AngularMotion.Interpolation

/-! ## The sides of residuals -/

section Definitions

variable {α : Type} [Elementary α] [Storable α] [Zero α] [One α] [Add α] [Sub α] [Mul α] [Neg α]
  [Div α] [OfNat α 2] [LT α] [DecidableLT α] (p : Working α) (time : α)
  (sample : List (Stamped α (Coordinates α))) (offset : Stamped α (Coordinates α))

/-- The first residual is given its sign after the identity. -/
def signedOn (rs : List (Residual α α)) : List (Signed α α) := signedFrom 1 (.identity p) rs

/-- What an offset leaves of a sample. -/
def remainders : List (Residual α α) := sample.map (remainder p time offset.motion)

/-- What it leaves, with the signs that an attempt gives it. -/
def signed : List (Signed α α) := signedOn p (remainders p time sample offset)

end Definitions

/-- A condition on the scalar part of the first rotation, and on the dot product of each rotation
with the one before. -/
structure Linked (holds : ℝ → Prop) (rotations : List (Quaternion ℝ)) : Prop where
  first : ∀ q ∈ rotations.head?, holds q.w
  next : rotations.IsChain fun a b => holds (b.dot a)

/-- Residuals with signs that keep each of them on the side of the one before. -/
structure KeepsSide (rs : List (Residual ℝ ℝ)) (chosen : List (Signed ℝ ℝ)) : Prop where
  residuals : chosen.map (·.residual) = rs
  signs : ∀ s ∈ chosen, s.sign = 1 ∨ s.sign = -1
  linked : Linked (0 ≤ ·) (chosen.map (·.rotation))

variable {ε time threshold : ℝ} {trust : Trust} {rs : List (Residual ℝ ℝ)}

/-- The scalar part is the dot product with the identity. -/
theorem linked_iff {holds : ℝ → Prop} {rotations : List (Quaternion ℝ)} :
    Linked holds rotations
      ↔ (Quaternion.identity (.exact ε) :: rotations).IsChain fun a b => holds (b.dot a) := by
  have hdot : ∀ q : Quaternion ℝ, q.dot (.identity (.exact ε)) = q.w := by
    intro q
    rw [Quaternion.identity_exact, Quaternion.dot_eq]
    simp
  rw [List.isChain_cons]
  simp only [hdot]
  exact ⟨fun h => ⟨h.first, h.next⟩, fun ⟨hfirst, hnext⟩ => ⟨hfirst, hnext⟩⟩

/-! ## One residual after another -/

/-- The sign of a residual turns it to the side of the one before. -/
theorem dot_signAfter (sign : ℝ) (previous q : Quaternion ℝ) :
    (signAfter sign previous q • q).dot (sign • previous) = |q.dot previous * sign| := by
  rw [Quaternion.smul_dot, signAfter, ← mul_direction]
  ring

/-- Only one sign turns a residual to the side of the one before, unless the two are orthogonal. -/
theorem eq_signAfter {sign s : ℝ} {previous q : Quaternion ℝ} (hsign : sign * sign = 1)
    (hs : s = 1 ∨ s = -1) (hdot : q.dot previous ≠ 0) (hside : 0 ≤ (s • q).dot (sign • previous)) :
    s = signAfter sign previous q := by
  by_contra hother
  have hopposite : s = -signAfter sign previous q := by
    have hsquares := (mul_self_eq_one_iff.mpr hs).trans (signAfter_mul_self sign previous q).symm
    exact (mul_self_eq_mul_self_iff.mp hsquares).resolve_left hother
  have hne : q.dot previous * sign ≠ 0 := mul_ne_zero hdot (left_ne_zero_of_mul_eq_one hsign)
  have hpositive := abs_pos.mpr hne
  rw [← dot_signAfter, Quaternion.smul_dot] at hpositive
  rw [hopposite, Quaternion.smul_dot] at hside
  linarith

/-! ## Runs -/

/-- Each signed residual lies on the side of the one before. -/
theorem isChain_signedFrom (sign : ℝ) (previous : Quaternion ℝ) (rs : List (Residual ℝ ℝ)) :
    (sign • previous :: (signedFrom sign previous rs).map (·.rotation)).IsChain
      fun a b => 0 ≤ b.dot a := by
  induction rs generalizing sign previous with
  | nil => exact .singleton _
  | cons r rs ih =>
    refine .cons_cons ?_ (ih _ _)
    exact (abs_nonneg _).trans_eq (dot_signAfter sign previous r.motion.rotation).symm

/-- No other signs do so, unless some residual is orthogonal to the one before. -/
theorem eq_signedFrom {sign : ℝ} {previous : Quaternion ℝ} {chosen : List (Signed ℝ ℝ)}
    (hsign : sign * sign = 1) (hsigns : ∀ s ∈ chosen, s.sign = 1 ∨ s.sign = -1)
    (hne : (previous :: chosen.map (·.residual.motion.rotation)).IsChain fun a b => b.dot a ≠ 0)
    (hside : (sign • previous :: chosen.map (·.rotation)).IsChain fun a b => 0 ≤ b.dot a) :
    chosen = signedFrom sign previous (chosen.map (·.residual)) := by
  induction chosen generalizing sign previous with
  | nil => rfl
  | cons s chosen ih =>
    obtain ⟨hdot, hne⟩ := List.isChain_cons_cons.mp hne
    obtain ⟨hfirst, hside⟩ := List.isChain_cons_cons.mp hside
    obtain ⟨hs, hsigns⟩ := List.forall_mem_cons.mp hsigns
    -- The first sign is forced, and the rest starts from it.
    have hchosen : s.sign = signAfter sign previous s.residual.motion.rotation :=
      eq_signAfter hsign hs hdot hfirst
    have hrest := ih (mul_self_eq_one_iff.mpr hs) hsigns hne hside
    rw [List.map_cons, signedFrom, ← hchosen, ← hrest]

/-! ## From the identity on -/

variable (ε rs) in
theorem keepsSide_signedOn : KeepsSide rs (signedOn (.exact ε) rs) where
  residuals := map_residual_signedFrom _ _ _
  signs _ hs := sign_of_mem_signedFrom hs
  linked := by
    have hchain := isChain_signedFrom 1 (.identity (.exact ε)) rs
    rw [Quaternion.one_smul] at hchain
    exact linked_iff.mpr hchain

/-- Only the signs of an attempt keep residuals on one side, unless two residuals in a row are
orthogonal, or the first one is orthogonal to the identity. -/
theorem KeepsSide.eq_signedOn (ε : ℝ) {chosen : List (Signed ℝ ℝ)} (h : KeepsSide rs chosen)
    (hne : Linked (· ≠ 0) (rs.map (·.motion.rotation))) : chosen = signedOn (.exact ε) rs := by
  obtain ⟨rfl, hsigns, hlinked⟩ := h
  rw [List.map_map] at hne
  have hclear := (linked_iff (ε := ε)).mp hne
  have hside := (linked_iff (ε := ε)).mp hlinked
  rw [← Quaternion.one_smul (Quaternion.identity (.exact ε))] at hside
  exact eq_signedFrom (one_mul 1) hsigns hclear hside

/-! ## Attempts -/

variable {sample : List (Stamped ℝ (Coordinates ℝ))} {offset : Stamped ℝ (Coordinates ℝ)}

theorem normalized_of_mem_signed (hsample : ∀ point ∈ sample, point.motion.rotation.Normalized)
    (hoffset : offset.motion.rotation.Normalized) {s : Signed ℝ ℝ}
    (hs : s ∈ signed (.exact ε) time sample offset) : s.rotation.Normalized := by
  have hkeeps := keepsSide_signedOn ε (remainders (.exact ε) time sample offset)
  have hmem : s.residual ∈ remainders (.exact ε) time sample offset :=
    hkeeps.residuals ▸ List.mem_map_of_mem hs
  obtain ⟨point, hpoint, hpointed⟩ := List.mem_map.mp hmem
  have hnormalized : (remainder (.exact ε) time offset.motion point).motion.rotation.Normalized :=
    (hsample point hpoint).compose ((Quaternion.normalized_exp _).compose hoffset).inverse
  rw [hpointed] at hnormalized
  exact hnormalized.smul (mul_self_eq_one_iff.mpr (hkeeps.signs s hs))

variable (ε time threshold trust sample offset) in
/-- An attempt is refused for a signed residual beyond the threshold, or keeps all of them. -/
theorem attempt_cases :
    (∃ s ∈ signed (.exact ε) time sample offset, s.rotation.w < threshold
        ∧ attempt (.exact ε) trust time sample offset threshold
          = .ok (.tooClose s.residual.time s.rotation.w))
      ∨ (∀ s ∈ signed (.exact ε) time sample offset, threshold ≤ s.rotation.w)
        ∧ attempt (.exact ε) trust time sample offset threshold
          = .ok (.accepted ((signed (.exact ε) time sample offset).map (Signed.knot trust))) := by
  rw [attempt, residuals_exact]
  exact attemptFrom_cases ε trust threshold 1 (.identity (.exact ε)) _

/-- What one attempt guarantees. Its signs keep the residuals on one side, and no others do so unless
residuals are orthogonal. It is refused exactly if a signed residual is beyond the threshold.
Otherwise there is a knot for each point, encoded by the chosen representative with a denominator that
the threshold keeps from zero. -/
theorem attempt_guarantees (ε time : ℝ) (trust : Trust) (hlow : -1 < threshold)
    (hsample : ∀ point ∈ sample, point.motion.rotation.Normalized)
    (hoffset : offset.motion.rotation.Normalized) :
    KeepsSide (remainders (.exact ε) time sample offset) (signed (.exact ε) time sample offset)
      ∧ (Linked (· ≠ 0) ((remainders (.exact ε) time sample offset).map (·.motion.rotation)) →
        ∀ others, KeepsSide (remainders (.exact ε) time sample offset) others →
          others = signed (.exact ε) time sample offset)
      ∧ (∀ s ∈ signed (.exact ε) time sample offset, s.rotation.Normalized)
      ∧ ((∃ instant scalarPart, attempt (.exact ε) trust time sample offset threshold
          = .ok (.tooClose instant scalarPart))
            ↔ ∃ s ∈ signed (.exact ε) time sample offset, s.rotation.w < threshold)
      ∧ ((¬ ∃ s ∈ signed (.exact ε) time sample offset, s.rotation.w < threshold) →
        ∃ knots, attempt (.exact ε) trust time sample offset threshold = .ok (.accepted knots)
          ∧ knots.map (·.abscissa) = sample.map (fun point => point.time - time)
          ∧ knots.map (·.rows) = (signed (.exact ε) time sample offset).map (fun s =>
            (Rodrigues.encode s.residual.motion s.sign).rows.take (trust.maxOrder + 1))
          ∧ 0 < 1 + threshold
          ∧ ∀ s ∈ signed (.exact ε) time sample offset,
            1 + threshold ≤ 1 + s.sign * s.residual.motion.rotation.w)
      ∧ ∀ n : Nat, 1 ≤ n →
        -1 < singularityThreshold (n : ℝ) ∧ singularityThreshold (n : ℝ) < 0 := by
  have hkeeps := keepsSide_signedOn ε (remainders (.exact ε) time sample offset)
  have hcases := attempt_cases ε time threshold trust sample offset
  refine ⟨hkeeps, fun hne others hothers => hothers.eq_signedOn ε hne,
    fun s hs => normalized_of_mem_signed hsample hoffset hs, ?_, ?_, ?_⟩
  · constructor
    · rintro ⟨instant, scalarPart, hrefused⟩
      rcases hcases with ⟨s, hs, hbeyond, _⟩ | ⟨_, haccepted⟩
      · exact ⟨s, hs, hbeyond⟩
      · rw [haccepted] at hrefused
        cases hrefused
    · rintro ⟨s, hs, hbeyond⟩
      rcases hcases with ⟨_, _, _, hrefused⟩ | ⟨hkept, _⟩
      · exact ⟨_, _, hrefused⟩
      · exact absurd hbeyond (not_lt.mpr (hkept s hs))
  · intro hclear
    rcases hcases with ⟨s, hs, hbeyond, _⟩ | ⟨hkept, haccepted⟩
    · exact absurd ⟨s, hs, hbeyond⟩ hclear
    · have habscissae := congrArg (List.map (·.abscissa)) hkeeps.residuals
      rw [remainders, List.map_map, List.map_map] at habscissae
      refine ⟨_, haccepted, ?_, ?_, by linarith, ?_⟩
      · rw [List.map_map]
        exact habscissae
      · rw [List.map_map]
        rfl
      · intro s hs
        have hw : threshold ≤ s.sign * s.residual.motion.rotation.w := hkept s hs
        linarith
  · intro n hn
    exact ⟨neg_one_lt_singularityThreshold hn, singularityThreshold_neg n⟩

/-- A kept attitude, given by one representative and then by the other. -/
noncomputable def alternating : List (Stamped ℝ (Coordinates ℝ)) :=
  [⟨0, .tilt, 0, 0⟩, ⟨1, -.tilt, 0, 0⟩]

/-- The second representative is turned back to the side of the first one. -/
theorem attempt_alternating :
    (signed (.exact 0) (1 / 2) alternating (offsetOf (1 / 2) 0 0)).map (·.sign) = [1, -1]
      ∧ ∃ knots, attempt (.exact 0) .rate (1 / 2) alternating (offsetOf (1 / 2) 0 0) (-1 / 2)
          = .ok (.accepted knots) ∧ knots.map (·.abscissa) = [-1 / 2, 1 / 2] := by
  have htilt := Quaternion.normalized_tilt
  have hsample : ∀ point ∈ alternating, point.motion.rotation.Normalized := by
    simp [alternating, htilt, htilt.neg]
  have hoffset : (offsetOf (1 / 2) 0 0).motion.rotation.Normalized :=
    Quaternion.normalized_turned 0
  have hlow : (-1 : ℝ) < -1 / 2 := by norm_num
  obtain ⟨_, hunique, _, _, haccepted, _⟩ :=
    attempt_guarantees 0 (1 / 2) .rate hlow hsample hoffset
  let r := remainder (.exact 0) (1 / 2) (offsetOf (1 / 2) 0 0).motion
  have hfirst : (r ⟨0, .tilt, 0, 0⟩).motion.rotation = .tilt := rotation_remainder_rest htilt
  have hsecond : (r ⟨1, -.tilt, 0, 0⟩).motion.rotation = -.tilt := rotation_remainder_rest htilt.neg
  have hclear : Linked (· ≠ 0) ((alternating.map r).map (·.motion.rotation)) := by
    simp only [alternating, List.map_cons, List.map_nil, hfirst, hsecond]
    constructor
    · norm_num [Quaternion.tilt]
    · norm_num [Quaternion.tilt, Quaternion.dot_eq]
  let chosen : List (Signed ℝ ℝ) := [⟨1, r ⟨0, .tilt, 0, 0⟩⟩, ⟨-1, r ⟨1, -.tilt, 0, 0⟩⟩]
  have hside : KeepsSide (alternating.map r) chosen := by
    refine ⟨rfl, by simp [chosen], ?_⟩
    simp only [chosen, List.map_cons, List.map_nil, Signed.rotation, hfirst, hsecond]
    constructor
    · norm_num [Quaternion.tilt]
    · norm_num [Quaternion.tilt, Quaternion.dot_eq]
  have hchosen : chosen = signed (.exact 0) (1 / 2) alternating (offsetOf (1 / 2) 0 0) :=
    hunique hclear chosen hside
  have hnone : ¬ ∃ s ∈ chosen, s.rotation.w < -1 / 2 := by
    simp only [chosen, List.mem_cons, List.not_mem_nil, or_false, exists_eq_or_imp, exists_eq_left,
      Signed.rotation, hfirst, hsecond]
    norm_num [Quaternion.tilt]
  -- The chosen signs are told apart from all others, without computing any direction.
  rw [← hchosen] at haccepted ⊢
  obtain ⟨knots, hattempt, habscissae, _⟩ := haccepted hnone
  refine ⟨rfl, knots, hattempt, ?_⟩
  rw [habscissae]
  norm_num [alternating]

end AngularMotion.Interpolation
