import AngularMotion.Proofs.Hermite.Uniqueness

/-!
# Interpolation of vectors

Vectors of `d` components are interpolated component by component, each by one polynomial
(`evaluateRows_eq`).

* `evaluateRows_polynomials`: what is sampled from polynomials of low degree is continued by these
  polynomials, at every abscissa and to every order;
* `evaluateRows_node`: at an abscissa the rows are those of the sample, whatever it holds;
* `evaluateVec3_toList`: a vector of three components is interpolated as a row of three numbers.
-/

namespace AngularMotion.Hermite

open Polynomial

/-! ## Three components -/

section Components

variable {α : Type} [Zero α] [Add α] [Sub α] [Mul α] [Div α] [NatCast α]

theorem length_evaluate (abscissae : List α) (samples : List (List α)) (x : α) (order : Nat) :
    (evaluate abscissae samples x order).length = order + 1 := by
  rw [evaluate]
  induction (nodes abscissae samples).zip (coefficients (nodes abscissae samples)) with
  | nil => simp
  | cons term rest ih => simpa [hornerStep] using ih

/-- A vector of three components is interpolated as a row of three numbers. -/
theorem evaluateVec3_toList (abscissae : List α) (samples : List (List (Vec3 α))) (x : α)
    (order : Nat) :
    (evaluateVec3 abscissae samples x order).map Vec3.toList
      = evaluateRows 3 abscissae (samples.map (·.map Vec3.toList)) x order := by
  have hpart : ∀ (i : Nat) (part : Vec3 α → α), (∀ v : Vec3 α, v.toList.getD i 0 = part v) →
      (samples.map (·.map Vec3.toList)).map (·.map (·.getD i 0)) = samples.map (·.map part) := by
    intro i part hpart
    simp only [List.map_map, Function.comp_def, hpart]
  have hx := hpart 0 Vec3.x fun _ => rfl
  have hy := hpart 1 Vec3.y fun _ => rfl
  have hz := hpart 2 Vec3.z fun _ => rfl
  have haxes : List.range 3 = [0, 1, 2] := rfl
  apply List.ext_getElem
  · simp [evaluateVec3, evaluateRows, length_evaluate]
  · intro p hp _
    have hp : p < order + 1 := by simpa [evaluateVec3, length_evaluate] using hp
    simp only [evaluateRows, haxes, List.map_cons, List.map_nil, hx, hy, hz]
    simp [evaluateVec3, Vec3.toList, length_evaluate, hp]

end Components

/-! ## Arrays -/

section Arrays

variable {α : Type} {n k d : Nat}

/-- An array of two dimensions, row by row. -/
def rows (entries : Fin n → Fin d → α) : List (List α) := .ofFn fun i => .ofFn (entries i)

theorem sum_length_rows (entries : Fin n → Fin d → α) :
    ((rows entries).map List.length).sum = n * d := by
  simp only [rows, List.map_ofFn, Function.comp_def, List.length_ofFn, List.ofFn_const,
    List.sum_replicate, smul_eq_mul]

/-- One component of the rows of all points. -/
theorem map_rows_getD [Zero α] (samples : Fin n → Fin k → Fin d → α) (c : Fin d) :
    (List.ofFn fun i => rows (samples i)).map (·.map (·.getD c 0))
      = rows fun i j => samples i j c := by
  simp only [rows, List.map_ofFn, Function.comp_def]
  simp

theorem sampled_rows {abscissae : Fin n → α} (hdistinct : Function.Injective abscissae)
    (entries : Fin n → Fin k → α) : Sampled (.ofFn abscissae) (rows entries) where
  length_eq := by simp [rows]
  nodup := List.nodup_ofFn.mpr hdistinct

end Arrays

/-! ## Any number of components -/

variable {K : Type} [Field K] {n k d : Nat}

/-- Each component is interpolated by a polynomial of its own. -/
theorem evaluateRows_eq (abscissae : Fin n → K) (samples : Fin n → Fin k → Fin d → K) (x : K)
    (order : Nat) :
    evaluateRows d (.ofFn abscissae) (.ofFn fun i => rows (samples i)) x order
      = (List.range (order + 1)).map fun p => List.ofFn fun c => (derivative^[p]
          (interpolant (.ofFn abscissae) (rows fun i j => samples i j c))).eval x := by
  apply List.ext_getElem
  · simp [evaluateRows]
  · intro p hp _
    have hp : p < order + 1 := by simpa [evaluateRows] using hp
    apply List.ext_getElem
    · simp [evaluateRows]
    · intro c hc _
      have hc : c < d := by simpa [evaluateRows] using hc
      have hcolumn := map_rows_getD samples ⟨c, hc⟩
      simp only [evaluateRows, List.getElem_map, List.getElem_range, List.getElem_ofFn, evaluate_eq,
        hcolumn, getD_jet _ x hp]

variable [CharZero K] {abscissae : Fin n → K}

/-- What is sampled from polynomials of low degree is continued by these polynomials, with all their
derivatives. -/
theorem evaluateRows_polynomials (hdistinct : Function.Injective abscissae)
    {samples : Fin n → Fin k → Fin d → K} {Q : Fin d → K[X]}
    (hdegree : ∀ c, (Q c).degree < (n * k : Nat))
    (hsamples : ∀ i (j : Fin k) c, samples i j c = (derivative^[j] (Q c)).eval (abscissae i)) (x : K)
    (order : Nat) :
    evaluateRows d (.ofFn abscissae) (.ofFn fun i => rows (samples i)) x order
      = (List.range (order + 1)).map fun p => List.ofFn fun c => (derivative^[p] (Q c)).eval x := by
  have hcomponent : ∀ c, interpolant (.ofFn abscissae) (rows fun i j => samples i j c) = Q c := by
    intro c
    refine interpolant_unique (sampled_rows hdistinct _) ?_ ?_
    · rw [sum_length_rows]
      exact hdegree c
    · intro i hi j hj
      have hi : i < n := by simpa [rows] using hi
      have hj : j < k := by simpa [rows] using hj
      simpa [rows, hi, hj] using (hsamples ⟨i, hi⟩ ⟨j, hj⟩ c).symm
  simp only [evaluateRows_eq, hcomponent]

/-- The powers `x³` and `x` with their slopes at one and at zero, continued to one half. -/
theorem evaluateRows_polynomials_powers :
    evaluateRows 2 [1, 0] [[[1, 1], [3, 1]], [[0, 0], [0, 1]]] (1 / 2 : ℚ) 4
      = [[1 / 8, 1 / 2], [3 / 4, 1], [3, 0], [6, 0], [0, 0]] := by
  let exponent : Fin 2 → Nat := ![3, 1]
  have hdistinct : Function.Injective ![(1 : ℚ), 0] := List.nodup_ofFn.mp (by simp)
  have hdegree : ∀ c, (X ^ exponent c : ℚ[X]).degree < (2 * 2 : Nat) := by
    intro c
    fin_cases c <;> norm_num [exponent]
  have hderivative : ∀ (p e : Nat) (x : ℚ),
      (derivative^[p] (X ^ e : ℚ[X])).eval x = e.descFactorial p * x ^ (e - p) := by
    intro p e x
    simp [iterate_derivative_X_pow_eq_natCast_mul]
  have hsamples : ∀ i (j : Fin 2) c, (![![![1, 1], ![3, 1]], ![![0, 0], ![0, 1]]] i j c : ℚ)
      = (derivative^[j] (X ^ exponent c : ℚ[X])).eval (![1, 0] i) := by
    intro i j c
    rw [hderivative]
    fin_cases i <;> fin_cases j <;> fin_cases c <;> simp [exponent]
  have hlists : [[[1, 1], [3, 1]], [[0, 0], [0, (1 : ℚ)]]]
      = .ofFn fun i => rows (![![![1, 1], ![3, 1]], ![![0, 0], ![0, 1]]] i) := by
    simp [rows]
  have habscissae : [1, (0 : ℚ)] = .ofFn ![1, 0] := by simp
  rw [hlists, habscissae, evaluateRows_polynomials hdistinct hdegree hsamples]
  simp only [hderivative]
  norm_num [exponent, List.range_succ, Nat.descFactorial]

/-- At an abscissa the rows are those of the sample, as far as it has rows. -/
theorem evaluateRows_node (hdistinct : Function.Injective abscissae)
    (samples : Fin n → Fin k → Fin d → K) (i : Fin n) {order : Nat} {p : Fin k} (hp : p ≤ order) :
    (evaluateRows d (.ofFn abscissae) (.ofFn fun i => rows (samples i)) (abscissae i) order)[p.val]?
      = some (.ofFn (samples i p)) := by
  have hcomponent : ∀ c, (derivative^[p] (interpolant (.ofFn abscissae)
      (rows fun i j => samples i j c))).eval (abscissae i) = samples i p c := by
    intro c
    have hnode := eval_iterate_derivative_interpolant
      (sampled_rows hdistinct fun i j => samples i j c) (i := i) (j := p) (by simp [rows])
      (by simp [rows])
    simpa [rows] using hnode
  have hrow : p.val < order + 1 := Nat.lt_succ_of_le hp
  simp [evaluateRows_eq, hrow, hcomponent]

/-- The slopes that are prescribed at the second of two abscissae. -/
theorem evaluateRows_node_second :
    (evaluateRows 2 [1, 0] [[[4, 0], [-1, 2]], [[7, 3], [5, -6]]] (0 : ℚ) 3)[1]?
      = some [(5 : ℚ), -6] := by
  have hdistinct : Function.Injective ![(1 : ℚ), 0] := List.nodup_ofFn.mp (by simp)
  have horder : ((1 : Fin 2) : Nat) ≤ 3 := by decide
  have hrow := evaluateRows_node hdistinct ![![![4, 0], ![-1, 2]], ![![7, 3], ![5, -6]]] 1 horder
  simpa [rows] using hrow

end AngularMotion.Hermite
