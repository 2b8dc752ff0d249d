import AngularMotion.Interpolation
import AngularMotion.Proofs.Hermite.Uniqueness
import AngularMotion.Proofs.Rodrigues.Derivatives
import Mathlib.Analysis.Calculus.Deriv.Polynomial

/-!
# The curve through knots

The curve decodes one polynomial for each component of the vectors, with its derivatives
(`curve_eq`). So its rate is that of its rotation, whatever the knots are (`kinematic_curve`), and
at the abscissa of a knot it decodes the rows of that knot (`track_knot`).
-/

open scoped Quaternion

namespace AngularMotion.Interpolation

open Hermite Polynomial

/-! ## The polynomials -/

/-- The polynomial of one component. -/
noncomputable def component (part : Vec3 ℝ → ℝ) (knots : List (Knot ℝ)) : ℝ[X] :=
  interpolant (knots.map (·.abscissa)) (knots.map fun k => k.rows.map part)

/-- The vector of the derivatives of an order. -/
noncomputable def track (knots : List (Knot ℝ)) (p : Nat) (x : ℝ) : Vec3 ℝ :=
  ⟨(derivative^[p] (component Vec3.x knots)).eval x,
    (derivative^[p] (component Vec3.y knots)).eval x,
    (derivative^[p] (component Vec3.z knots)).eval x⟩

variable (ε : ℝ) (knots : List (Knot ℝ))

theorem evaluateVec3_eq (x : ℝ) (order : Nat) :
    evaluateVec3 (knots.map (·.abscissa)) (knots.map (·.rows)) x order
      = (List.range (order + 1)).map fun p => track knots p x := by
  simp only [evaluateVec3, evaluate_eq, jet, track, component, List.map_map, Function.comp_def,
    List.zip_map', List.zipWith_map, List.zipWith_self]

theorem curve_eq (x : ℝ) :
    curve (.exact ε) knots x
      = Rodrigues.decode ⟨track knots 0 x, track knots 1 x, track knots 2 x⟩ := by
  have hrows : (knots.map fun k => k.rows.map (·.map (Working.exact ε).store))
      = knots.map (·.rows) := by
    apply List.map_congr_left
    intro k _
    exact List.map_id k.rows
  have heval := evaluateVec3_eq knots x 2
  simp only [curve, hrows, Working.store_exact, heval]
  rfl

/-! ## Derivatives -/

theorem hasDerivAt_track (p : Nat) (x : ℝ) :
    HasDerivAt (fun s => (track knots p s).hamilton) (track knots (p + 1) x).hamilton x := by
  have hderiv : ∀ P : ℝ[X], HasDerivAt (fun s => (derivative^[p] P).eval s)
      ((derivative^[p + 1] P).eval x) x := by
    intro P
    rw [Function.iterate_succ_apply']
    exact (derivative^[p] P).hasDerivAt x
  exact Vec3.hasDerivAt_hamilton (hderiv _) (hderiv _) (hderiv _)

/-- The rate of the curve is that of its rotation. -/
theorem kinematic_curve : Coordinates.Kinematic fun x => curve (.exact ε) knots x := by
  simp only [curve_eq]
  exact Coordinates.kinematic_decode fun t => hasDerivAt_track knots 0 t

/-! ## Knots -/

section Knots

variable {knots}

/-- At a knot the derivatives of a component are those of the rows, as far as there are rows. -/
theorem eval_component (part : Vec3 ℝ → ℝ) (hnodup : (knots.map (·.abscissa)).Nodup) {k : Knot ℝ}
    (hk : k ∈ knots) {j : Nat} (hj : j < k.rows.length) :
    (derivative^[j] (component part knots)).eval k.abscissa = part k.rows[j] := by
  have hnode := eval_interpolant_of_mem (fun k : Knot ℝ => k.rows.map part) hnodup hk (j := j)
    (by simpa using hj)
  simpa [component, hj] using hnode

/-- At a knot the derivatives are the rows of the knot, as far as it has rows. -/
theorem track_knot (hnodup : (knots.map (·.abscissa)).Nodup) {i p : Nat} (hi : i < knots.length)
    (hp : p < knots[i].rows.length) :
    track knots p knots[i].abscissa = knots[i].rows[p] := by
  have hpart : ∀ part : Vec3 ℝ → ℝ,
      (derivative^[p] (component part knots)).eval knots[i].abscissa = part knots[i].rows[p] :=
    fun part => eval_component part hnodup (List.getElem_mem hi) hp
  exact Vec3.ext (hpart _) (hpart _) (hpart _)

/-! ## One polynomial through knots -/

theorem degree_component_lt (part : Vec3 ℝ → ℝ) (hnodup : (knots.map (·.abscissa)).Nodup) :
    (component part knots).degree < (knots.map (·.rows.length)).sum := by
  have hdegree := degree_interpolant_map_lt (fun k : Knot ℝ => k.rows.map part) hnodup
  simpa only [component, List.length_map] using hdegree

/-- A polynomial of low degree that has the rows for derivatives is the component. -/
theorem component_unique {part : Vec3 ℝ → ℝ} (hnodup : (knots.map (·.abscissa)).Nodup) {P : ℝ[X]}
    (hdegree : P.degree < (knots.map (·.rows.length)).sum)
    (hP : ∀ k ∈ knots, ∀ j (hj : j < k.rows.length),
      (derivative^[j] P).eval k.abscissa = part k.rows[j]) : component part knots = P := by
  refine interpolant_unique_of_mem hnodup ?_ ?_
  · simpa only [List.length_map] using hdegree
  · intro k hk j hj
    have hj : j < k.rows.length := by simpa using hj
    simpa [hj] using hP k hk j hj

/-- A linear function of the rows is interpolated by the same function of the components. -/
theorem component_linear {part : Vec3 ℝ → ℝ} (hnodup : (knots.map (·.abscissa)).Nodup) {a b d : ℝ}
    (hpart : ∀ v, part v = a * v.x + b * v.y + d * v.z) :
    component part knots
      = a • component Vec3.x knots + b • component Vec3.y knots + d • component Vec3.z knots := by
  have hdegree : ∀ (k : ℝ) (axis : Vec3 ℝ → ℝ),
      (k • component axis knots).degree < (knots.map (·.rows.length)).sum :=
    fun k axis => (degree_smul_le k _).trans_lt (degree_component_lt axis hnodup)
  refine component_unique hnodup ?_ ?_
  · exact (degree_add_le _ _).trans_lt
      (max_lt ((degree_add_le _ _).trans_lt (max_lt (hdegree _ _) (hdegree _ _))) (hdegree _ _))
  · intro k hk j hj
    simp only [iterate_map_add, iterate_derivative_smul, eval_add, eval_smul, smul_eq_mul,
      eval_component _ hnodup hk hj, hpart]

/-- Equal values without derivatives are interpolated by that value. -/
theorem component_const {part : Vec3 ℝ → ℝ} (hnodup : (knots.map (·.abscissa)).Nodup)
    (hne : knots ≠ []) {value : ℝ} (hrows : ∀ k ∈ knots, k.rows ≠ []
      ∧ ∀ j (hj : j < k.rows.length), part k.rows[j] = if j = 0 then value else 0) :
    component part knots = C value := by
  refine component_unique hnodup ?_ ?_
  · obtain ⟨k, hk⟩ := List.exists_mem_of_ne_nil _ hne
    have hpos : 0 < (knots.map (·.rows.length)).sum :=
      (List.length_pos_iff.mpr (hrows k hk).1).trans_le
        (List.single_le_sum (by simp) _ (List.mem_map_of_mem hk))
    exact degree_C_le.trans_lt (by exact_mod_cast hpos)
  · intro k hk j hj
    rw [(hrows k hk).2 j hj]
    split
    · rename_i hzero
      rw [hzero, Function.iterate_zero_apply, eval_C]
    · rename_i hderivative
      rw [iterate_derivative_C (Nat.pos_of_ne_zero hderivative), eval_zero]

end Knots

end AngularMotion.Interpolation
