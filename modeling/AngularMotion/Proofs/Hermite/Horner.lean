import AngularMotion.Hermite
import Mathlib.Algebra.Polynomial.Derivative
import Mathlib.Tactic.Ring

/-!
# The interpolant as a polynomial

`newton` is the polynomial that a Newton form denotes. Horner's scheme computes it with its
derivatives: `evaluate_eq` says so for every table of differences, right or wrong, and every order,
orders beyond the degree included.
-/

namespace AngularMotion.Hermite

open Polynomial

variable {K : Type} [Field K]

/-- The polynomial of a Newton form: `c₀ + (X - z₀) (c₁ + (X - z₁) (⋯))`. -/
noncomputable def newton : List (Node K × K) → K[X]
  | [] => 0
  | (z, c) :: rest => C c + (X - C z.abscissa) * newton rest

/-- The polynomial through samples. -/
noncomputable def interpolant (abscissae : List K) (samples : List (List K)) : K[X] :=
  let nodes := nodes abscissae samples
  newton (nodes.zip (coefficients nodes))

/-- A polynomial with its derivatives at a point, orders up to `n` exclusive. -/
noncomputable def jet (P : K[X]) (x : K) (n : Nat) : List K :=
  (List.range n).map fun p => (derivative^[p] P).eval x

theorem jet_zero (x : K) (n : Nat) : jet 0 x n = .replicate n 0 := by
  rw [List.eq_replicate_iff]
  simp [jet]

@[simp] theorem length_jet (P : K[X]) (x : K) (n : Nat) : (jet P x n).length = n := by
  simp [jet]

theorem getD_jet (P : K[X]) (x : K) {n p : Nat} (h : p < n) :
    (jet P x n).getD p 0 = (derivative^[p] P).eval x := by
  simp [jet, List.getD_eq_getElem?_getD, h]

theorem iterate_derivative_linear_mul (z : K) (P : K[X]) (p : Nat) :
    derivative^[p + 1] ((X - C z) * P)
      = (X - C z) * derivative^[p + 1] P + ((p + 1 : Nat) : K[X]) * derivative^[p] P := by
  induction p generalizing P with
  | zero => simp; ring
  | succ p ih =>
    rw [Function.iterate_succ_apply', ih, Function.iterate_succ_apply' _ (p + 1)]
    simp [Function.iterate_succ_apply']
    ring

/-- One step of Horner's scheme, read on polynomials. -/
theorem hornerStep_jet (x z c : K) (P : K[X]) (n : Nat) :
    hornerStep (x - z) c (jet P x n) = jet (C c + (X - C z) * P) x n := by
  apply List.ext_getElem
  · simp [hornerStep]
  · intro p hp _
    have hn : p < n := by simpa [hornerStep] using hp
    cases p with
    | zero => simp [hornerStep, jet]; ring
    | succ p =>
      have hlow : (jet P x n).getD p 0 = (derivative^[p] P).eval x := getD_jet P x (by omega)
      have hconst : derivative^[p + 1] (C c + (X - C z) * P)
          = derivative^[p + 1] ((X - C z) * P) := by
        simp
      simp only [hornerStep, List.getElem_map, List.getElem_zipIdx, Nat.zero_add, Nat.add_sub_cancel,
        hlow]
      simp only [jet, List.getElem_map, List.getElem_range, hconst, iterate_derivative_linear_mul]
      simp
      ring

theorem foldr_hornerStep (x : K) (n : Nat) (terms : List (Node K × K)) :
    terms.foldr (fun (z, c) values => hornerStep (x - z.abscissa) c values) (.replicate n 0)
      = jet (newton terms) x n := by
  induction terms with
  | nil => exact (jet_zero x n).symm
  | cons term rest ih =>
    rw [List.foldr_cons, ih]
    exact hornerStep_jet x term.1.abscissa term.2 (newton rest) n

theorem evaluate_eq (abscissae : List K) (samples : List (List K)) (x : K) (order : Nat) :
    evaluate abscissae samples x order = jet (interpolant abscissae samples) x (order + 1) :=
  foldr_hornerStep x (order + 1) _

end AngularMotion.Hermite
