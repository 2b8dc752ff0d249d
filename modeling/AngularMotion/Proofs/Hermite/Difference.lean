import Mathlib.Algebra.Polynomial.FieldDivision
import Mathlib.Tactic.LinearCombination

/-!
# Divided differences of a polynomial

The interpolant of a polynomial `F` at nodes `z₀ … zₙ`, repeated ones included, is the remainder of
`F` on division by `(X - z₀) ⋯ (X - zₙ)`. Its leading coefficient is the divided difference of `F`
at these nodes. Both depend on the nodes as a multiset only, which is what the two recursions of the
difference table rest on:

* `difference_of_ne`: a difference between two distinct end nodes;
* `difference_replicate`: a difference at equal nodes, `F⁽ⁿ⁾ / n!`.
-/

namespace AngularMotion.Hermite

open Polynomial

variable {K : Type} [Field K]

/-- The product of the linear factors of nodes. -/
noncomputable def nodal (zs : List K) : K[X] := (zs.map fun z => X - C z).prod

@[simp] theorem nodal_nil : nodal ([] : List K) = 1 := rfl

@[simp] theorem nodal_cons (z : K) (zs : List K) : nodal (z :: zs) = (X - C z) * nodal zs := rfl

theorem nodal_append (as bs : List K) : nodal (as ++ bs) = nodal as * nodal bs := by
  simp [nodal]

theorem nodal_monic (zs : List K) : (nodal zs).Monic := by
  induction zs with
  | nil => exact monic_one
  | cons z zs ih => exact (monic_X_sub_C z).mul ih

theorem natDegree_nodal (zs : List K) : (nodal zs).natDegree = zs.length := by
  induction zs with
  | nil => simp
  | cons z zs ih =>
    rw [nodal_cons, (monic_X_sub_C z).natDegree_mul (nodal_monic zs), natDegree_X_sub_C, ih,
      List.length_cons, Nat.add_comm]

theorem degree_nodal (zs : List K) : (nodal zs).degree = zs.length := by
  rw [degree_eq_natDegree (nodal_monic zs).ne_zero, natDegree_nodal]

theorem degree_modByMonic_nodal_lt (F : K[X]) (zs : List K) :
    (F %ₘ nodal zs).degree < zs.length :=
  degree_nodal zs ▸ degree_modByMonic_lt F (nodal_monic zs)

/-! ## Division by a product -/

/-- Division by a product, one factor after the other. -/
theorem modByMonic_mul (F : K[X]) {p q : K[X]} (hp : p.Monic) (hq : q.Monic) :
    F %ₘ (p * q) = F %ₘ p + p * ((F /ₘ p) %ₘ q) := by
  have hF : F %ₘ p + p * ((F /ₘ p) %ₘ q) + p * q * ((F /ₘ p) /ₘ q) = F := by
    conv_rhs => rw [← modByMonic_add_div F p, ← modByMonic_add_div (F /ₘ p) q]
    ring
  have hdeg : (F %ₘ p + p * ((F /ₘ p) %ₘ q)).degree < (p * q).degree := by
    refine (degree_add_le _ _).trans_lt (max_lt ?_ ?_)
    · calc
        (F %ₘ p).degree < p.degree := degree_modByMonic_lt F hp
        _ ≤ (p * q).degree := by
          rw [degree_mul]
          exact le_add_of_nonneg_right (zero_le_degree_iff.mpr hq.ne_zero)
    · rw [degree_mul, degree_mul]
      exact WithBot.add_lt_add_left (degree_ne_bot.mpr hp.ne_zero) (degree_modByMonic_lt _ hq)
  exact (div_modByMonic_unique _ _ (hp.mul hq) ⟨hF, hdeg⟩).2

/-- Polynomials that agree up to a power of a linear factor have the same derivatives at its root,
orders below the power. -/
theorem eval_iterate_derivative_of_dvd {F G : K[X]} {z : K} {k p : Nat} (hp : p < k)
    (h : (X - C z) ^ k ∣ F - G) : (derivative^[p] F).eval z = (derivative^[p] G).eval z := by
  have hroot : X - C z ∣ derivative^[p] (F - G) :=
    (dvd_pow_self _ (Nat.sub_ne_zero_of_lt hp)).trans
      (pow_sub_dvd_iterate_derivative_of_pow_dvd p h)
  have h0 : (derivative^[p] (F - G)).eval z = 0 := dvd_iff_isRoot.mp hroot
  rw [iterate_derivative_sub, eval_sub, sub_eq_zero] at h0
  exact h0

/-- A remainder keeps the derivatives at a root of the divisor, below its multiplicity. -/
theorem eval_iterate_derivative_modByMonic (F : K[X]) {D : K[X]} {z : K} {k p : Nat} (hp : p < k)
    (hz : (X - C z) ^ k ∣ D) : (derivative^[p] (F %ₘ D)).eval z = (derivative^[p] F).eval z := by
  refine (eval_iterate_derivative_of_dvd hp ?_).symm
  rw [sub_eq_of_eq_add' (modByMonic_add_div F D).symm]
  exact hz.mul_right _

/-! ## Differences -/

/-- The divided difference of a polynomial at nodes. -/
noncomputable def difference (F : K[X]) (zs : List K) : K :=
  (F %ₘ nodal zs).coeff (zs.length - 1)

theorem difference_perm (F : K[X]) {as bs : List K} (h : as.Perm bs) :
    difference F as = difference F bs := by
  rw [difference, difference, nodal, (h.map _).prod_eq, h.length_eq, nodal]

theorem difference_singleton (F : K[X]) (z : K) : difference F [z] = F.eval z := by
  simp [difference, modByMonic_X_sub_C_eq_C_eval]

/-- A first node taken out of a difference. -/
theorem difference_cons (F : K[X]) (z : K) {zs : List K} (h : zs ≠ []) :
    difference F (z :: zs) = difference (F /ₘ (X - C z)) zs := by
  obtain ⟨n, hn⟩ : ∃ n, zs.length = n + 1 := Nat.exists_eq_succ_of_ne_zero (by simpa using h)
  have hlow : ((F /ₘ (X - C z)) %ₘ nodal zs).coeff (n + 1) = 0 :=
    coeff_eq_zero_of_degree_lt (hn ▸ degree_modByMonic_nodal_lt _ zs)
  rw [difference, difference, nodal_cons, modByMonic_mul F (monic_X_sub_C z) (nodal_monic zs),
    modByMonic_X_sub_C_eq_C_eval, List.length_cons, hn]
  simp [sub_mul, hlow, coeff_X_mul]

/-- Newton's increment: what one more node adds to the interpolant. -/
theorem modByMonic_nodal_concat (F : K[X]) (zs : List K) (z : K) :
    F %ₘ nodal (zs ++ [z]) = F %ₘ nodal zs + nodal zs * C (difference F (zs ++ [z])) := by
  have hstep : F %ₘ nodal (zs ++ [z])
      = F %ₘ nodal zs + nodal zs * C ((F /ₘ nodal zs).eval z) := by
    rw [nodal_append, nodal_cons, nodal_nil, mul_one,
      modByMonic_mul F (nodal_monic zs) (monic_X_sub_C z), modByMonic_X_sub_C_eq_C_eval]
  have hcoeff : difference F (zs ++ [z]) = (F /ₘ nodal zs).eval z := by
    have hlow : (F %ₘ nodal zs).coeff zs.length = 0 :=
      coeff_eq_zero_of_degree_lt (degree_modByMonic_nodal_lt F zs)
    have hlead : (nodal zs).coeff zs.length = 1 := natDegree_nodal zs ▸ nodal_monic zs
    rw [difference, hstep, List.length_append, List.length_singleton, Nat.add_sub_cancel,
      coeff_add, coeff_mul_C, hlow, hlead, zero_add, one_mul]
  rw [hstep, hcoeff]

/-- The difference between two distinct end nodes. -/
theorem difference_of_ne (F : K[X]) {a b : K} (zs : List K) (h : a ≠ b) :
    difference F (a :: (zs ++ [b]))
      = (difference F (zs ++ [b]) - difference F (a :: zs)) / (b - a) := by
  have hperm : (a :: zs).Perm (zs ++ [a]) := (List.perm_append_singleton a zs).symm
  have hends : (zs ++ [b] ++ [a]).Perm (a :: (zs ++ [b])) := List.perm_append_singleton a _
  -- The interpolant at all nodes, reached by way of either end.
  have hleft := modByMonic_nodal_concat F (a :: zs) b
  have hright := modByMonic_nodal_concat F (zs ++ [b]) a
  have hnodal : nodal (zs ++ [b] ++ [a]) = nodal (a :: zs ++ [b]) := (hends.map _).prod_eq
  have hfirst : nodal (a :: zs) = nodal (zs ++ [a]) := (hperm.map _).prod_eq
  rw [hnodal, hleft, hfirst, modByMonic_nodal_concat F zs a, modByMonic_nodal_concat F zs b,
    difference_perm F hends, ← difference_perm F hperm, nodal_append, nodal_append] at hright
  simp only [nodal_cons, nodal_nil, mul_one, List.cons_append] at hright
  set d := difference F (a :: (zs ++ [b]))
  have hcancel : C (difference F (a :: zs)) + (X - C a) * C d
      = C (difference F (zs ++ [b])) + (X - C b) * C d := by
    apply mul_left_cancel₀ (nodal_monic zs).ne_zero
    linear_combination hright
  have heval := congrArg (eval 0) hcancel
  simp only [eval_add, eval_mul, eval_sub, eval_C, eval_X] at heval
  rw [eq_div_iff (sub_ne_zero.mpr h.symm)]
  linear_combination heval

theorem nodal_replicate (n : Nat) (z : K) : nodal (.replicate n z) = (X - C z) ^ n := by
  simp [nodal]

/-- The difference at equal nodes. -/
theorem difference_replicate [CharZero K] (F : K[X]) (n : Nat) (z : K) :
    difference F (.replicate (n + 1) z) = (derivative^[n] F).eval z / (n.factorial : K) := by
  have hstep := modByMonic_nodal_concat F (.replicate n z) z
  rw [← List.replicate_succ', nodal_replicate, nodal_replicate] at hstep
  have hlow : derivative^[n] (F %ₘ (X - C z) ^ n) = 0 := by
    apply iterate_derivative_eq_zero_of_degree_lt
    simpa [nodal_replicate] using degree_modByMonic_nodal_lt F (.replicate n z)
  have hkeep := eval_iterate_derivative_modByMonic F n.lt_succ_self (dvd_refl ((X - C z) ^ (n + 1)))
  rw [hstep, iterate_map_add derivative, hlow, mul_comm, iterate_derivative_C_mul,
    iterate_derivative_X_sub_pow_self] at hkeep
  have hfact : (n.factorial : K) ≠ 0 := Nat.cast_ne_zero.mpr n.factorial_ne_zero
  rw [eq_div_iff hfact, ← hkeep]
  simp

end AngularMotion.Hermite
