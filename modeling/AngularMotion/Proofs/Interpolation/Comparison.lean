import AngularMotion.Proofs.Interpolation.Search

/-!
# Two searches compared

Searches on two samples of one size go through the same restarts if they begin with the same offset
and agree on every attempt that is made (`settle_congr`).
-/

namespace AngularMotion.Interpolation

section Definitions

variable {τ α : Type} [Timeline τ α] [Elementary α] [Storable α]
  [Zero α] [One α] [Add α] [Sub α] [Mul α] [Neg α] [Div α] [NatCast α] [OfNat α 2] [OfNat α 4]
  [OfScientific α] [LT α] [DecidableLT α]

/-- The attempt after `k` restarts is made: those before it were refused. -/
def Attempted (p : Working α) (trust : Trust) (time : τ) (sample : List (Stamped τ (Coordinates α)))
    (first : Stamped τ (Coordinates α)) (k : Nat) : Prop :=
  ∀ j < k, ∃ instant scalarPart,
    attemptAt p trust time sample ((restart p sample.length)^[j] first)
      = .ok (.tooClose instant scalarPart)

end Definitions

variable (ε time : ℝ) {trust : Trust} {sample others : List (Stamped ℝ (Coordinates ℝ))}

/-- After a refusal, what is attempted from the restarted offset was to be attempted anyway. -/
theorem Attempted.succ {first : Stamped ℝ (Coordinates ℝ)} {instant scalarPart : ℝ}
    (hrefused : attemptAt (.exact ε) trust time sample first = .ok (.tooClose instant scalarPart))
    {k : Nat}
    (h : Attempted (.exact ε) trust time sample (restart (.exact ε) sample.length first) k) :
    Attempted (.exact ε) trust time sample first (k + 1) := by
  intro j hj
  cases j with
  | zero => exact ⟨instant, scalarPart, hrefused⟩
  | succ j => exact h j (by omega)

/-- Searches that agree on the attempts they make are the same. -/
theorem searchFrom_congr (hlength : others.length = sample.length) {left : Nat} (index : Nat)
    {offset : Stamped ℝ (Coordinates ℝ)}
    (hagree : ∀ k < left, Attempted (.exact ε) trust time sample offset k →
      attemptAt (.exact ε) trust time others ((restart (.exact ε) sample.length)^[k] offset)
        = attemptAt (.exact ε) trust time sample ((restart (.exact ε) sample.length)^[k] offset)) :
    searchFrom (.exact ε) trust time others left index offset
      = searchFrom (.exact ε) trust time sample left index offset := by
  induction left generalizing index offset with
  | zero =>
    rw [searchFrom, searchFrom, search, search]
    simp only [reduction, hlength]
  | succ left ih =>
    have hfirst := hagree 0 (Nat.succ_pos left) fun j hj => absurd hj (Nat.not_lt_zero j)
    rw [Function.iterate_zero_apply] at hfirst
    rcases attemptAt_total ε time trust sample offset with
      ⟨knots, haccepted⟩ | ⟨point, _, _, scalarPart, hrefused⟩
    · rw [searchFrom_accepted haccepted, searchFrom_accepted (hfirst.trans haccepted)]
    · rw [searchFrom_refused hrefused, searchFrom_refused (hfirst.trans hrefused), hlength]
      rw [ih (index + 1) fun k hk hmade => hagree (k + 1) (by omega) (hmade.succ ε time hrefused)]

/-- Every offset that is attempted is a rotation. -/
theorem normalized_attempted {first : Stamped ℝ (Coordinates ℝ)}
    (h : firstOffset (.exact ε) trust time sample = .ok first) (size k : Nat) :
    ((restart (.exact ε) size)^[k] first).motion.rotation.Normalized := by
  obtain ⟨rate, rfl⟩ : ∃ rate, first = offsetOf time 0 rate := by
    rw [firstOffset_eq] at h
    match hrate : meanRate (.exact ε) trust sample with
    | .error fault =>
      rw [hrate] at h
      cases h
    | .ok rate =>
      rw [hrate] at h
      cases h
      exact ⟨rate, rfl⟩
  rw [iterate_restart]
  exact Quaternion.normalized_turned _

/-- Samples with the same first offset that agree on the attempts made for it settle alike. -/
theorem settle_congr (hlength : others.length = sample.length)
    (hfirst : firstOffset (.exact ε) trust time others = firstOffset (.exact ε) trust time sample)
    (hagree : ∀ first, firstOffset (.exact ε) trust time sample = .ok first →
      ∀ k < attemptLimit sample.length, Attempted (.exact ε) trust time sample first k →
        attemptAt (.exact ε) trust time others ((restart (.exact ε) sample.length)^[k] first)
          = attemptAt (.exact ε) trust time sample
              ((restart (.exact ε) sample.length)^[k] first)) :
    settle (.exact ε) trust time others = settle (.exact ε) trust time sample := by
  rw [settle, settle, hfirst]
  rcases hoffset : firstOffset (.exact ε) trust time sample with fault | first
  · rfl
  · change searchFrom (.exact ε) trust time others (attemptLimit others.length) 0 first
      = searchFrom (.exact ε) trust time sample (attemptLimit sample.length) 0 first
    rw [hlength]
    exact searchFrom_congr ε time hlength 0 (hagree first hoffset)

end AngularMotion.Interpolation
