import AngularMotion.Proofs.Hermite.Table
import Mathlib.Data.List.GetD
import Mathlib.RingTheory.Ideal.Quotient.Operations

/-!
# The conditions at the nodes

Samples at distinct abscissae come from a polynomial (`exists_known`), so that the interpolant is a
remainder of it (`interpolant_eq`) and has the sampled values and derivatives at every node
(`eval_iterate_derivative_interpolant`).
-/

namespace AngularMotion.Hermite

open Polynomial

variable {K : Type} [Field K]

/-! ## Points and their nodes -/

/-- One node for each point of a sample. -/
def points (abscissae : List K) (samples : List (List K)) : List (Node K) :=
  samples.zipIdx.map fun (orders, i) =>
    ⟨i, abscissae.getD (min i (abscissae.length - 1)) 0, orders⟩

/-- Each point once per known order. -/
def spread (ps : List (Node K)) : List (Node K) :=
  ps.flatMap fun z => .replicate z.orders.length z

theorem nodes_eq (abscissae : List K) (samples : List (List K)) :
    nodes abscissae samples = spread (points abscissae samples) := by
  simp [nodes, spread, points, List.flatMap_map]

/-- Points of different numbers at different abscissae. -/
def Separate (ps : List (Node K)) : Prop :=
  ps.Pairwise fun a b => a.point ≠ b.point ∧ a.abscissa ≠ b.abscissa

/-- The orders of the points are derivatives of `F`. -/
def Known (F : K[X]) (ps : List (Node K)) : Prop :=
  ∀ z ∈ ps, ∀ j < z.orders.length, z.orders.getD j 0 = (derivative^[j] F).eval z.abscissa

/-- A run of copies of one point in front of nodes of other points. -/
theorem Fits.append {F : K[X]} {p : Node K} {k : Nat} {zs : List (Node K)} (h : Fits F zs)
    (hknown : ∀ j < k, p.orders.getD j 0 = (derivative^[j] F).eval p.abscissa)
    (hother : ∀ z ∈ zs, p.point ≠ z.point ∧ p.abscissa ≠ z.abscissa) :
    Fits F (.replicate k p ++ zs) where
  known ha hb hpoint := by
    rcases getElem?_run ha hb with ⟨hl, rfl, rfl⟩ | ⟨rfl, hz⟩ | ⟨_, ha', hb'⟩
    · exact hknown _ (by omega)
    · exact absurd hpoint (hother _ hz).1
    · exact h.known ha' hb' hpoint
  run ha hb hpoint := by
    rcases getElem?_run ha hb with ⟨hl, rfl, rfl⟩ | ⟨rfl, hz⟩ | ⟨hk, ha', hb'⟩
    · exact stretch_run hl
    · exact absurd hpoint (hother _ hz).1
    · rw [stretch_beyond_run hk]
      exact h.run ha' hb' hpoint
  separate ha hb hpoint := by
    rcases getElem?_run ha hb with ⟨_, rfl, rfl⟩ | ⟨rfl, hz⟩ | ⟨_, ha', hb'⟩
    · exact absurd rfl hpoint
    · exact (hother _ hz).2
    · exact h.separate ha' hb' hpoint

theorem fits_spread {F : K[X]} {ps : List (Node K)} (hsep : Separate ps) (hknown : Known F ps) :
    Fits F (spread ps) := by
  induction ps with
  | nil => constructor <;> simp [spread]
  | cons p ps ih =>
    obtain ⟨hp, hps⟩ := List.pairwise_cons.mp hsep
    refine (ih hps fun z hz => hknown z (List.mem_cons_of_mem _ hz)).append
      (hknown p List.mem_cons_self) ?_
    intro z hz
    obtain ⟨q, hq, hzq⟩ := List.mem_flatMap.mp hz
    rw [List.eq_of_mem_replicate hzq]
    exact hp q hq

/-! ## A polynomial through the points -/

/-- The polynomial with given derivatives at one point. -/
noncomputable def taylorSum (z : Node K) : K[X] :=
  ∑ j ∈ Finset.range z.orders.length,
    C (z.orders.getD j 0 / (j.factorial : K)) * (X - C z.abscissa) ^ j

theorem eval_iterate_derivative_taylorSum [CharZero K] (z : Node K) {j : Nat}
    (h : j < z.orders.length) :
    (derivative^[j] (taylorSum z)).eval z.abscissa = z.orders.getD j 0 := by
  have hfact : (j.factorial : K) ≠ 0 := Nat.cast_ne_zero.mpr j.factorial_ne_zero
  rw [taylorSum, iterate_derivative_sum, eval_finsetSum,
    Finset.sum_eq_single_of_mem j (Finset.mem_range.mpr h)]
  · rw [iterate_derivative_C_mul, iterate_derivative_X_sub_pow_self]
    simp [hfact]
  · intro i _ hij
    rw [iterate_derivative_C_mul, iterate_derivative_X_sub_pow]
    rcases Nat.lt_or_gt_of_ne hij with hlt | hgt
    · simp [Nat.descFactorial_eq_zero_iff_lt.mpr hlt]
    · simp [Nat.sub_ne_zero_of_lt hgt]

omit [Field K] in
theorem Separate.nodup {ps : List (Node K)} (h : Separate ps) : (ps.map (·.abscissa)).Nodup :=
  List.pairwise_map.mpr (h.imp fun hab => hab.2)

theorem exists_known [CharZero K] {ps : List (Node K)} (hsep : Separate ps) :
    ∃ F, Known F ps := by
  let I (i : Fin ps.length) : Ideal K[X] :=
    Ideal.span {(X - C ps[i].abscissa) ^ ps[i].orders.length}
  have hcoprime : Pairwise (Function.onFun IsCoprime I) := by
    intro i j hij
    have hne : ps[i].abscissa ≠ ps[j].abscissa := by
      intro heq
      apply hij
      have hget : (ps.map (·.abscissa)).get ⟨i, by simp⟩
          = (ps.map (·.abscissa)).get ⟨j, by simp⟩ := by
        simpa using heq
      have hindex := List.nodup_iff_injective_get.mp hsep.nodup hget
      exact Fin.ext (by simpa using hindex)
    rw [Function.onFun, Ideal.isCoprime_span_singleton_iff]
    exact (isCoprime_X_sub_C_of_isUnit_sub (sub_ne_zero_of_ne hne).isUnit).pow
  obtain ⟨F, hF⟩ := Ideal.exists_forall_sub_mem_ideal hcoprime fun i => taylorSum ps[i]
  refine ⟨F, ?_⟩
  intro z hz j hj
  obtain ⟨i, hi, rfl⟩ := List.getElem_of_mem hz
  have hdvd : (X - C ps[i].abscissa) ^ ps[i].orders.length ∣ F - taylorSum ps[i] :=
    Ideal.mem_span_singleton.mp (hF ⟨i, hi⟩)
  rw [eval_iterate_derivative_of_dvd hj hdvd]
  exact (eval_iterate_derivative_taylorSum _ hj).symm

/-! ## The interpolant -/

/-- The abscissae of a sample belong to its points in order, and no two of them agree. -/
structure Sampled (abscissae : List K) (samples : List (List K)) : Prop where
  length_eq : abscissae.length = samples.length
  nodup : abscissae.Nodup

variable {abscissae : List K} {samples : List (List K)}

theorem length_points : (points abscissae samples).length = samples.length := by
  simp [points]

theorem getElem_points (h : Sampled abscissae samples) {i : Nat} (hi : i < samples.length) :
    (points abscissae samples)[i]? = some ⟨i, abscissae.getD i 0, samples[i]⟩ := by
  have hlen := h.length_eq
  have hmin : min i (abscissae.length - 1) = i := by omega
  simp [points, hi, hmin]

theorem Sampled.separate (h : Sampled abscissae samples) : Separate (points abscissae samples) := by
  refine List.pairwise_iff_getElem.mpr ?_
  intro i j hi hj hij
  have hi' : i < samples.length := by rwa [length_points] at hi
  have hj' : j < samples.length := by rwa [length_points] at hj
  have hleft := getElem_points h hi'
  have hright := getElem_points h hj'
  rw [List.getElem?_eq_getElem hi, Option.some_inj] at hleft
  rw [List.getElem?_eq_getElem hj, Option.some_inj] at hright
  rw [hleft, hright]
  refine ⟨hij.ne, ?_⟩
  have hlen := h.length_eq
  simp only [List.getD_eq_getElem _ _ (show i < abscissae.length by omega),
    List.getD_eq_getElem _ _ (show j < abscissae.length by omega)]
  exact fun heq => hij.ne (h.nodup.getElem_inj_iff.mp heq)

/-- The interpolant of samples of `F` is the remainder of `F`. -/
theorem interpolant_eq [CharZero K] {F : K[X]} (h : Sampled abscissae samples)
    (hF : Known F (points abscissae samples)) :
    interpolant abscissae samples
      = F %ₘ nodal ((spread (points abscissae samples)).map (·.abscissa)) := by
  rw [interpolant, nodes_eq]
  exact newton_coefficients (fits_spread h.separate hF)

theorem pow_dvd_nodal_spread {ps : List (Node K)} {z : Node K} (hz : z ∈ ps) :
    (X - C z.abscissa) ^ z.orders.length ∣ nodal ((spread ps).map (·.abscissa)) := by
  obtain ⟨as, bs, rfl⟩ := List.append_of_mem hz
  simp only [spread, List.flatMap_append, List.flatMap_cons, List.map_append, nodal_append,
    List.map_replicate, nodal_replicate]
  exact (dvd_mul_right _ _).mul_left _

/-- The interpolant has the sampled derivatives at every abscissa. -/
theorem eval_iterate_derivative_interpolant [CharZero K] (h : Sampled abscissae samples) {i j : Nat}
    (hi : i < samples.length) (hj : j < samples[i].length) :
    (derivative^[j] (interpolant abscissae samples)).eval (abscissae.getD i 0)
      = samples[i].getD j 0 := by
  obtain ⟨F, hF⟩ := exists_known h.separate
  have hmem := List.mem_of_getElem? (getElem_points h hi)
  generalize hz : (⟨i, abscissae.getD i 0, samples[i]⟩ : Node K) = z at hmem
  have hx : abscissae.getD i 0 = z.abscissa := by rw [← hz]
  have ho : samples[i] = z.orders := by rw [← hz]
  rw [ho] at hj ⊢
  rw [hx, interpolant_eq h hF, eval_iterate_derivative_modByMonic F hj (pow_dvd_nodal_spread hmem)]
  exact (hF z hmem j hj).symm

end AngularMotion.Hermite
