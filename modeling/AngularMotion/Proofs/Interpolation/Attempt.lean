import AngularMotion.Interpolation
import AngularMotion.Proofs.Coordinates.Offset
import Mathlib.Analysis.SpecialFunctions.Trigonometric.Bounds
import Mathlib.Data.List.Forall2

/-!
# Attempts over the reals

Over the reals every residual exists. An attempt gives each of them a sign (`signedFrom`) and ends in
one of two ways (`attemptFrom_cases`): some signed residual is beyond the threshold, or all of them
are kept as knots.

* `attemptFrom_accepted`: the knots are the residuals, encoded with signs that keep them away from
  the singularity by the threshold;
* `attemptOn_total`: otherwise some residual other than the first one has a scalar part beyond the
  threshold. The sign of the first one makes its scalar part positive.
-/

namespace AngularMotion.Interpolation

/-! ## Thresholds and signs -/

theorem direction_eq (x : ℝ) : Elementary.direction x = if x < 0 then -1 else 1 := rfl

theorem direction_mul_self (x : ℝ) :
    Elementary.direction x * Elementary.direction x = (1 : ℝ) := by
  rw [direction_eq]
  split <;> norm_num

theorem mul_direction (x : ℝ) : x * Elementary.direction x = |x| := by
  rw [direction_eq]
  split
  · rename_i h
    rw [abs_of_neg h, mul_neg_one]
  · rename_i h
    rw [abs_of_nonneg (not_lt.mp h), mul_one]

theorem singularityThreshold_eq (n : ℝ) :
    singularityThreshold n = min (-Real.cos (2 * Real.pi / n / 4)) (-(1 - 1e-4)) := by
  change (if -Real.cos (2 * Real.pi / n / 4) < -(1 - 1e-4) then _ else _) = _
  split
  · rename_i h
    exact (min_eq_left h.le).symm
  · rename_i h
    exact (min_eq_right (not_lt.mp h)).symm

theorem singularityThreshold_neg (n : ℝ) : singularityThreshold n < 0 := by
  rw [singularityThreshold_eq]
  exact (min_le_right _ _).trans_lt (by norm_num)

theorem cos_le_neg_singularityThreshold (n : ℝ) :
    Real.cos (2 * Real.pi / n / 4) ≤ -singularityThreshold n := by
  rw [singularityThreshold_eq]
  exact le_neg_of_le_neg (min_le_left _ _)

/-- The threshold keeps residuals away from the singularity. -/
theorem neg_one_lt_singularityThreshold {n : Nat} (hn : 0 < n) :
    -1 < singularityThreshold (n : ℝ) := by
  have hn1 : (1 : ℝ) ≤ n := by exact_mod_cast hn
  have hangle : 0 < 2 * Real.pi / n / 4 := by positivity
  have hbound : 2 * Real.pi / n / 4 ≤ Real.pi := by
    have : 2 * Real.pi / n ≤ 2 * Real.pi := div_le_self (by positivity) hn1
    linarith [Real.pi_pos]
  have hcos : Real.cos (2 * Real.pi / n / 4) < 1 := by
    rw [← Real.cos_zero]
    exact Real.cos_lt_cos_of_nonneg_of_le_pi le_rfl hbound hangle
  rw [singularityThreshold_eq, lt_min_iff]
  exact ⟨neg_lt_neg hcos, by norm_num⟩

/-! ## Residuals -/

section Definitions

variable {τ α : Type} [Elementary α] [Storable α] [Zero α] [One α] [Add α] [Sub α] [Mul α] [Neg α]
  [Div α] [OfNat α 2] [LT α] [DecidableLT α]

/-- What an offset leaves of a point, where instants are numbers. -/
def remainder (p : Working α) (time : α) (offset : Coordinates α)
    (point : Stamped α (Coordinates α)) : Residual α α :=
  ⟨point.time, point.time - time,
    point.motion.subtractOffset (offset.shiftedBy p (point.time - time))⟩

/-- The sign of a residual, from the sign and the rotation of the one before. -/
def signAfter (sign : α) (previous rotation : Quaternion α) : α :=
  Elementary.direction (rotation.dot previous * sign)

/-- The knot that a residual gives with a sign. -/
def knotOf (trust : Trust) (sign : α) (r : Residual τ α) : Knot α :=
  ⟨r.abscissa, (Rodrigues.encode r.motion sign).rows.take (trust.maxOrder + 1)⟩

/-- The end of an attempt with one more knot in front. -/
def withKnot (knot : Knot α) : Attempt τ α → Attempt τ α
  | .accepted knots => .accepted (knot :: knots)
  | .tooClose time scalarPart => .tooClose time scalarPart

end Definitions

theorem signAfter_mul_self (sign : ℝ) (previous q : Quaternion ℝ) :
    signAfter sign previous q * signAfter sign previous q = 1 := direction_mul_self _

theorem signAfter_eq_one_or (sign : ℝ) (previous q : Quaternion ℝ) :
    signAfter sign previous q = 1 ∨ signAfter sign previous q = -1 :=
  mul_self_eq_one_iff.mp (signAfter_mul_self sign previous q)

variable (ε time : ℝ)

theorem residuals_exact (sample : List (Stamped ℝ (Coordinates ℝ)))
    (offset : Stamped ℝ (Coordinates ℝ)) :
    residuals (.exact ε) time sample offset
      = (sample.map (remainder (.exact ε) time offset.motion)).map .ok := by
  rw [List.map_map]
  rfl

/-! ## Signed residuals -/

section Definitions

variable {τ α : Type}

/-- A residual with the sign of the representative of its rotation that is encoded. -/
structure Signed (τ α : Type) where
  sign : α
  residual : Residual τ α

/-- The representative that the sign chooses. -/
def Signed.rotation [Mul α] (s : Signed τ α) : Quaternion α :=
  s.sign • s.residual.motion.rotation

variable [Elementary α] [Storable α] [Zero α] [One α] [Add α] [Sub α] [Mul α] [Div α] [OfNat α 2]

def Signed.knot (trust : Trust) (s : Signed τ α) : Knot α := knotOf trust s.sign s.residual

/-- Residuals with the signs that an attempt gives them, each after the one before. -/
def signedFrom : (sign : α) → (previous : Quaternion α) → List (Residual τ α) → List (Signed τ α)
  | _, _, [] => []
  | sign, previous, r :: rest =>
    let chosen := signAfter sign previous r.motion.rotation
    ⟨chosen, r⟩ :: signedFrom chosen r.motion.rotation rest

end Definitions

theorem map_residual_signedFrom (sign : ℝ) (previous : Quaternion ℝ) (rs : List (Residual ℝ ℝ)) :
    (signedFrom sign previous rs).map (·.residual) = rs := by
  induction rs generalizing sign previous with
  | nil => rfl
  | cons r rs ih => rw [signedFrom, List.map_cons, ih]

theorem sign_of_mem_signedFrom {sign : ℝ} {previous : Quaternion ℝ} {rs : List (Residual ℝ ℝ)}
    {s : Signed ℝ ℝ} (hs : s ∈ signedFrom sign previous rs) : s.sign = 1 ∨ s.sign = -1 := by
  induction rs generalizing sign previous with
  | nil => cases hs
  | cons r rs ih =>
    rcases List.mem_cons.mp hs with rfl | hrest
    · exact signAfter_eq_one_or _ _ _
    · exact ih hrest

/-! ## Runs of an attempt -/

section Generic

variable {τ α : Type} [Elementary α] [Storable α] [Zero α] [One α] [Add α] [Sub α] [Mul α] [Div α]
  [OfNat α 2] [LT α] [DecidableLT α] {p : Working α}

/-- One residual in front of others, where numbers are stored as they are. -/
theorem attemptFrom_cons_of_plain (hplain : ∀ x : α, Storable.plain x = x)
    (hstore : ∀ x : α, p.store x = x) (trust : Trust) (threshold sign : α)
    (previous : Quaternion α) (r : Residual τ α) (rest : List (Except (Fault τ) (Residual τ α))) :
    attemptFrom p trust threshold sign previous (.ok r :: rest) =
      if r.motion.rotation.w * signAfter sign previous r.motion.rotation < threshold then
        .ok (.tooClose r.time
          (r.motion.rotation.w * signAfter sign previous r.motion.rotation))
      else
        (attemptFrom p trust threshold (signAfter sign previous r.motion.rotation)
          r.motion.rotation rest).map
            (withKnot (knotOf trust (signAfter sign previous r.motion.rotation) r)) := by
  simp only [attemptFrom, hplain, hstore]
  by_cases h : r.motion.rotation.w * signAfter sign previous r.motion.rotation < threshold
  · rw [if_pos h]
    exact if_pos h
  · rw [if_neg h]
    refine (if_neg h).trans ?_
    change attemptFrom p trust threshold (signAfter sign previous r.motion.rotation)
      r.motion.rotation rest >>= _ = _
    rcases attemptFrom p trust threshold (signAfter sign previous r.motion.rotation)
      r.motion.rotation rest with _ | _ | _ <;> rfl

end Generic

variable {trust : Trust} {threshold : ℝ}

/-- One residual in front of others. -/
theorem attemptFrom_cons (sign : ℝ) (previous : Quaternion ℝ) (r : Residual ℝ ℝ)
    (rest : List (Except (Fault ℝ) (Residual ℝ ℝ))) :
    attemptFrom (.exact ε) trust threshold sign previous (.ok r :: rest) =
      if r.motion.rotation.w * signAfter sign previous r.motion.rotation < threshold then
        .ok (.tooClose r.time
          (r.motion.rotation.w * signAfter sign previous r.motion.rotation))
      else
        (attemptFrom (.exact ε) trust threshold (signAfter sign previous r.motion.rotation)
          r.motion.rotation rest).map
            (withKnot (knotOf trust (signAfter sign previous r.motion.rotation) r)) :=
  attemptFrom_cons_of_plain (fun _ => rfl) (fun _ => rfl) trust threshold sign previous r rest

variable (trust threshold) in
/-- An attempt ends at a signed residual beyond the threshold, and keeps all of them as knots if there
is none. -/
theorem attemptFrom_cases (sign : ℝ) (previous : Quaternion ℝ) (rs : List (Residual ℝ ℝ)) :
    (∃ s ∈ signedFrom sign previous rs, s.rotation.w < threshold
        ∧ attemptFrom (.exact ε) trust threshold sign previous (rs.map .ok)
          = .ok (.tooClose s.residual.time s.rotation.w))
      ∨ (∀ s ∈ signedFrom sign previous rs, threshold ≤ s.rotation.w)
        ∧ attemptFrom (.exact ε) trust threshold sign previous (rs.map .ok)
          = .ok (.accepted ((signedFrom sign previous rs).map (Signed.knot trust))) := by
  induction rs generalizing sign previous with
  | nil => exact .inr ⟨fun s hs => absurd hs List.not_mem_nil, rfl⟩
  | cons r rs ih =>
    let s : Signed ℝ ℝ := ⟨signAfter sign previous r.motion.rotation, r⟩
    have hw : r.motion.rotation.w * s.sign = s.rotation.w := mul_comm _ _
    have hsigned : signedFrom sign previous (r :: rs)
        = s :: signedFrom s.sign r.motion.rotation rs := rfl
    rw [List.map_cons, attemptFrom_cons, hw, hsigned]
    by_cases hbeyond : s.rotation.w < threshold
    · exact .inl ⟨s, List.mem_cons_self, hbeyond, if_pos hbeyond⟩
    · rw [if_neg hbeyond]
      rcases ih s.sign r.motion.rotation with ⟨beyond, hmem, hlt, hrest⟩ | ⟨hkept, hrest⟩
      · exact .inl ⟨beyond, List.mem_cons_of_mem _ hmem, hlt, by rw [hrest]; rfl⟩
      · exact .inr ⟨List.forall_mem_cons.mpr ⟨not_lt.mp hbeyond, hkept⟩, by rw [hrest]; rfl⟩

/-- A residual is kept as a knot, encoded with a sign that the threshold did not refuse. -/
def Keeps (trust : Trust) (threshold : ℝ) (r : Residual ℝ ℝ) (k : Knot ℝ) : Prop :=
  ∃ sign : ℝ, sign * sign = 1 ∧ threshold ≤ sign * r.motion.rotation.w ∧ k = knotOf trust sign r

/-- The knots of an accepted attempt are the residuals, one by one. -/
theorem attemptFrom_accepted {rs : List (Residual ℝ ℝ)} {sign : ℝ} {previous : Quaternion ℝ}
    {knots : List (Knot ℝ)}
    (h : attemptFrom (.exact ε) trust threshold sign previous (rs.map .ok)
      = .ok (.accepted knots)) :
    List.Forall₂ (Keeps trust threshold) rs knots := by
  rcases attemptFrom_cases ε trust threshold sign previous rs with
    ⟨_, _, _, hrefused⟩ | ⟨hkept, haccepted⟩
  · rw [hrefused] at h
    cases h
  · rw [haccepted] at h
    cases h
    have hkeeps : List.Forall₂ (Keeps trust threshold)
        ((signedFrom sign previous rs).map (·.residual))
        ((signedFrom sign previous rs).map (Signed.knot trust)) := by
      rw [List.forall₂_map_left_iff, List.forall₂_map_right_iff, List.forall₂_same]
      intro s hs
      exact ⟨s.sign, mul_self_eq_one_iff.mpr (sign_of_mem_signedFrom hs), hkept s hs, rfl⟩
    rwa [map_residual_signedFrom] at hkeeps

theorem map_abscissa_of_keeps {rs : List (Residual ℝ ℝ)} {knots : List (Knot ℝ)}
    (h : List.Forall₂ (Keeps trust threshold) rs knots) :
    knots.map (·.abscissa) = rs.map (·.abscissa) := by
  induction h with
  | nil => rfl
  | cons hkeeps _ ih =>
    obtain ⟨sign, _, _, rfl⟩ := hkeeps
    rw [List.map_cons, List.map_cons, ih, knotOf]

/-- An attempt on residuals is accepted, or one of them is beyond the threshold. -/
theorem attemptFrom_total (rs : List (Residual ℝ ℝ)) (sign : ℝ) (previous : Quaternion ℝ) :
    (∃ knots, attemptFrom (.exact ε) trust threshold sign previous (rs.map .ok)
        = .ok (.accepted knots))
      ∨ ∃ r ∈ rs, -threshold < |r.motion.rotation.w| ∧ ∃ scalarPart,
        attemptFrom (.exact ε) trust threshold sign previous (rs.map .ok)
          = .ok (.tooClose r.time scalarPart) := by
  rcases attemptFrom_cases ε trust threshold sign previous rs with
    ⟨s, hs, hbeyond, hrefused⟩ | ⟨_, haccepted⟩
  · have hmem : s.residual ∈ rs :=
      map_residual_signedFrom sign previous rs ▸ List.mem_map_of_mem hs
    have habs : |s.rotation.w| = |s.residual.motion.rotation.w| := by
      rcases sign_of_mem_signedFrom hs with hsign | hsign <;> simp [Signed.rotation, hsign]
    refine .inr ⟨s.residual, hmem, ?_, _, hrefused⟩
    rw [← habs]
    exact (neg_lt_neg hbeyond).trans_le (neg_le_abs _)
  · exact .inl ⟨_, haccepted⟩

/-- The sign of the first residual makes its scalar part positive. -/
theorem w_mul_signAfter_identity (q : Quaternion ℝ) :
    q.w * signAfter 1 (.identity (.exact ε)) q = |q.w| := by
  have hdot : q.dot (.identity (.exact ε)) = q.w := by
    rw [Quaternion.identity_exact, Quaternion.dot_eq]
    simp
  rw [signAfter, hdot, mul_one, mul_direction]

variable (trust) in
/-- The first residual never ends an attempt. -/
theorem attemptOn_total (hthreshold : threshold < 0) (rs : List (Residual ℝ ℝ)) :
    (∃ knots, attemptOn (.exact ε) trust threshold (rs.map .ok) = .ok (.accepted knots))
      ∨ ∃ r ∈ rs.tail, -threshold < |r.motion.rotation.w| ∧ ∃ scalarPart,
        attemptOn (.exact ε) trust threshold (rs.map .ok) = .ok (.tooClose r.time scalarPart) := by
  cases rs with
  | nil => exact .inl ⟨[], rfl⟩
  | cons r rs =>
    have hkept : ¬ r.motion.rotation.w
        * signAfter 1 (.identity (.exact ε)) r.motion.rotation < threshold := by
      rw [w_mul_signAfter_identity]
      exact not_lt.mpr (hthreshold.le.trans (abs_nonneg _))
    simp only [attemptOn, List.map_cons, attemptFrom_cons, if_neg hkept, List.tail_cons]
    rcases attemptFrom_total ε rs (signAfter 1 (.identity (.exact ε)) r.motion.rotation)
      r.motion.rotation with ⟨knots, hrest⟩ | ⟨other, hmem, hlarge, scalarPart, hrest⟩
    · exact .inl ⟨_, by rw [hrest]; rfl⟩
    · exact .inr ⟨other, hmem, hlarge, scalarPart, by rw [hrest]; rfl⟩

end AngularMotion.Interpolation
