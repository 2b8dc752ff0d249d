import AngularMotion.Proofs.Hermite.Rows
import Mathlib.Data.List.FinRange

/-!
# The order of the points

In another order the points of a sample have another table of differences and other coefficients, but
they ask the same of a polynomial. Since the interpolant is the only polynomial of low degree that
does as they ask, it stays the same (`interpolant_of_perm`), and so does all that is evaluated from it
(`evaluate_of_perm`, `evaluateRows_of_perm`). The points need not have equally many known orders.
-/

namespace AngularMotion.Hermite

variable {K : Type} [Field K] [CharZero K] {ι : Type} {points points' : List ι} {abscissa : ι → K}
  {orders : ι → List K}

/-- The same points in another order have the same interpolant. -/
theorem interpolant_of_perm (hperm : points.Perm points') (hdistinct : (points.map abscissa).Nodup) :
    interpolant (points.map abscissa) (points.map orders)
      = interpolant (points'.map abscissa) (points'.map orders) := by
  have hdistinct' : (points'.map abscissa).Nodup := (hperm.map abscissa).nodup_iff.mp hdistinct
  have hcount : (points.map fun p => (orders p).length).sum
      = (points'.map fun p => (orders p).length).sum :=
    (hperm.map _).sum_eq
  refine interpolant_unique_of_mem hdistinct ?_ ?_
  · rw [hcount]
    exact degree_interpolant_map_lt orders hdistinct'
  · intro p hp j hj
    exact eval_interpolant_of_mem orders hdistinct' (hperm.subset hp) hj

theorem evaluate_of_perm (hperm : points.Perm points') (hdistinct : (points.map abscissa).Nodup)
    (x : K) (order : Nat) :
    evaluate (points.map abscissa) (points.map orders) x order
      = evaluate (points'.map abscissa) (points'.map orders) x order := by
  rw [evaluate_eq, evaluate_eq, interpolant_of_perm hperm hdistinct]

/-- Every column of the rows is a sample of its own, with the points in the same order. -/
theorem evaluateRows_of_perm (entries : ι → List (List K)) (hperm : points.Perm points')
    (hdistinct : (points.map abscissa).Nodup) (width : Nat) (x : K) (order : Nat) :
    evaluateRows width (points.map abscissa) (points.map entries) x order
      = evaluateRows width (points'.map abscissa) (points'.map entries) x order := by
  have hcolumn : ∀ i, evaluate (points.map abscissa)
      ((points.map entries).map (·.map (·.getD i 0))) x order
        = evaluate (points'.map abscissa) ((points'.map entries).map (·.map (·.getD i 0))) x order := by
    intro i
    rw [List.map_map, List.map_map]
    exact evaluate_of_perm hperm hdistinct x order
  simp only [evaluateRows, hcolumn]

/-- Points at distinct abscissae may be given in any order. -/
theorem evaluateRows_reordered {n k d : Nat} {abscissae : Fin n → K}
    (hdistinct : Function.Injective abscissae) (samples : Fin n → Fin k → Fin d → K)
    (σ : Equiv.Perm (Fin n)) (x : K) (order : Nat) :
    evaluateRows d (.ofFn fun i => abscissae (σ i)) (.ofFn fun i => rows (samples (σ i))) x order
      = evaluateRows d (.ofFn abscissae) (.ofFn fun i => rows (samples i)) x order := by
  have hnodup : ((List.finRange n).map abscissae).Nodup := (List.nodup_finRange n).map hdistinct
  have hrows := evaluateRows_of_perm (fun i => rows (samples i)) σ.map_finRange_perm.symm hnodup d x
    order
  simpa only [List.ofFn_eq_map, List.map_map, Function.comp_def] using hrows.symm

/-- Three points with their slopes, the last of them put first. The two Newton forms have only their
last coefficient in common. -/
theorem evaluateRows_reordered_slopes :
    evaluateRows 1 [4, 0, 1] [[[2], [7]], [[1], [-1]], [[5], [0]]] (3 : ℚ) 2
        = evaluateRows 1 [0, 1, 4] [[[1], [-1]], [[5], [0]], [[2], [7]]] (3 : ℚ) 2
      ∧ evaluateRows 1 [0, 1, 4] [[[1], [-1]], [[5], [0]], [[2], [7]]] (3 : ℚ) 2
        = [[-61 / 8], [7 / 2], [339 / 16]] := by
  let lastFirst : Equiv.Perm (Fin 3) := ⟨![2, 0, 1], ![1, 2, 0], by decide, by decide⟩
  have hdistinct : Function.Injective ![(0 : ℚ), 1, 4] := List.nodup_ofFn.mp (by simp)
  have hreordered := evaluateRows_reordered hdistinct
    ![![![1], ![-1]], ![![5], ![0]], ![![2], ![7]]] lastFirst 3 2
  exact ⟨hreordered, by decide +kernel⟩

end AngularMotion.Hermite
