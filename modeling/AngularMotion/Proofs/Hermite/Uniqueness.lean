import AngularMotion.Proofs.Hermite.Conditions

/-!
# The interpolant is the only one

Of the polynomials whose degree is below the number of conditions, the interpolant alone meets them
(`interpolant_unique`). The conditions may be read off a list of points of any kind
(`interpolant_unique_of_mem`).
-/

namespace AngularMotion.Hermite

open Polynomial

variable {K : Type} [Field K] {abscissae : List K} {samples : List (List K)}

/-! ## Counting conditions -/

omit [Field K] in
theorem length_spread (ps : List (Node K)) :
    (spread ps).length = (ps.map (·.orders.length)).sum := by
  simp [spread, List.length_flatMap]

/-- There is one node for each known value or derivative. -/
theorem length_spread_points :
    (spread (points abscissae samples)).length = (samples.map List.length).sum := by
  have horders : (points abscissae samples).map (·.orders.length) = samples.map List.length := by
    apply List.ext_getElem
    · simp [points]
    · intro i hi _
      simp [points]
  rw [length_spread, horders]

theorem degree_interpolant_lt [CharZero K] (h : Sampled abscissae samples) :
    (interpolant abscissae samples).degree < (samples.map List.length).sum := by
  obtain ⟨F, hF⟩ := exists_known h.separate
  have hdegree := degree_modByMonic_nodal_lt F
    ((spread (points abscissae samples)).map (·.abscissa))
  rwa [← interpolant_eq h hF, List.length_map, length_spread_points] at hdegree

/-! ## Uniqueness -/

/-- What is known of the points is known at every index. -/
theorem known_points {P : K[X]} (h : Sampled abscissae samples)
    (hP : ∀ i (hi : i < samples.length), ∀ j < samples[i].length,
      (derivative^[j] P).eval (abscissae.getD i 0) = samples[i].getD j 0) :
    Known P (points abscissae samples) := by
  intro z hz j hj
  obtain ⟨i, hi, rfl⟩ := List.getElem_of_mem hz
  have hi' : i < samples.length := by rwa [length_points] at hi
  have hpoint := getElem_points h hi'
  rw [List.getElem?_eq_getElem hi, Option.some_inj] at hpoint
  rw [hpoint] at hj ⊢
  exact (hP i hi' j hj).symm

/-- A polynomial of low degree that meets the conditions is the interpolant. -/
theorem interpolant_unique [CharZero K] (h : Sampled abscissae samples) {P : K[X]}
    (hdegree : P.degree < (samples.map List.length).sum)
    (hP : ∀ i (hi : i < samples.length), ∀ j < samples[i].length,
      (derivative^[j] P).eval (abscissae.getD i 0) = samples[i].getD j 0) :
    interpolant abscissae samples = P := by
  rw [interpolant_eq h (known_points h hP), modByMonic_eq_self_iff (nodal_monic _), degree_nodal,
    List.length_map, length_spread_points]
  exact hdegree

/-! ## Points of any kind

A list of points, each with an abscissa and its known orders. What is said of all points does not
depend on where they stand in the list.
-/

section Points

variable {ι : Type} {points : List ι} {abscissa : ι → K} (orders : ι → List K)

omit [Field K] in
theorem sampled_map (hdistinct : (points.map abscissa).Nodup) :
    Sampled (points.map abscissa) (points.map orders) where
  length_eq := by rw [List.length_map, List.length_map]
  nodup := hdistinct

variable [CharZero K]

theorem degree_interpolant_map_lt (hdistinct : (points.map abscissa).Nodup) :
    (interpolant (points.map abscissa) (points.map orders)).degree
      < (points.map fun p => (orders p).length).sum := by
  have hdegree := degree_interpolant_lt (sampled_map orders hdistinct)
  rwa [List.map_map] at hdegree

theorem eval_interpolant_of_mem (hdistinct : (points.map abscissa).Nodup) {p : ι} (hp : p ∈ points)
    {j : Nat} (hj : j < (orders p).length) :
    (derivative^[j] (interpolant (points.map abscissa) (points.map orders))).eval (abscissa p)
      = (orders p).getD j 0 := by
  obtain ⟨i, hi, rfl⟩ := List.getElem_of_mem hp
  have hnode := eval_iterate_derivative_interpolant (sampled_map orders hdistinct) (i := i) (j := j)
    (by simpa using hi) (by simpa using hj)
  simpa [hi] using hnode

variable {orders} in
theorem interpolant_unique_of_mem (hdistinct : (points.map abscissa).Nodup) {P : K[X]}
    (hdegree : P.degree < (points.map fun p => (orders p).length).sum)
    (hP : ∀ p ∈ points, ∀ j < (orders p).length,
      (derivative^[j] P).eval (abscissa p) = (orders p).getD j 0) :
    interpolant (points.map abscissa) (points.map orders) = P := by
  refine interpolant_unique (sampled_map orders hdistinct) ?_ ?_
  · rwa [List.map_map]
  · intro i hi j hj
    have hi : i < points.length := by simpa using hi
    have hasked := hP points[i] (List.getElem_mem hi) j (by simpa using hj)
    simpa [hi] using hasked

end Points

end AngularMotion.Hermite
