import AngularMotion.Proofs.Guarded.Motion
import AngularMotion.Proofs.Hermite.Conditions

/-!
# Hermite interpolation of guarded numbers

A divided difference divides by the distance of two abscissae or by a factorial. At distinct abscissae
neither is zero, so that guarded numbers are interpolated as real ones (`evaluate_guarded`).
-/

namespace AngularMotion.Hermite

open Guarded

/-- The node of guarded numbers. -/
def Node.guarded (z : Node ℝ) : Node Guarded :=
  ⟨z.point, number z.abscissa, z.orders.map number⟩

theorem getD_number (xs : List ℝ) (i : Nat) : (xs.map number).getD i 0 = number (xs.getD i 0) :=
  List.getD_map _ _ number

theorem headD_number (xs : List ℝ) : (xs.map number).headD 0 = number (xs.headD 0) := by
  cases xs <;> rfl

/-! ## Divided differences -/

theorem quotient_guarded (level : Nat) (low high : ℝ) {first last : Node ℝ}
    (hseparate : first.point ≠ last.point → first.abscissa ≠ last.abscissa) :
    (if first.guarded.point = last.guarded.point then
        first.guarded.orders.getD level 0 / (factorial level : Nat)
      else (number high - number low) / (last.guarded.abscissa - first.guarded.abscissa))
      = number (if first.point = last.point then first.orders.getD level 0 / (factorial level : Nat)
        else (high - low) / (last.abscissa - first.abscissa)) := by
  by_cases hsame : first.point = last.point
  · have hsame' : first.guarded.point = last.guarded.point := hsame
    have hfactorial : ((factorial level : Nat) : ℝ) ≠ 0 := by
      rw [factorial_eq]
      exact_mod_cast level.factorial_ne_zero
    rw [if_pos hsame, if_pos hsame', Node.guarded, getD_number]
    exact number_div hfactorial
  · have hsame' : ¬ first.guarded.point = last.guarded.point := hsame
    rw [if_neg hsame, if_neg hsame']
    exact number_div (sub_ne_zero.mpr (hseparate hsame).symm)

theorem nextLevel_guarded {zs : List (Node ℝ)}
    (hseparate : ∀ a ∈ zs, ∀ b ∈ zs, a.point ≠ b.point → a.abscissa ≠ b.abscissa) (level : Nat)
    (column : List ℝ) :
    nextLevel level (zs.map Node.guarded) (column.map number)
      = (nextLevel level zs column).map number := by
  apply List.ext_getElem
  · simp [nextLevel]
  · intro i hi hi'
    simp only [nextLevel, List.getElem_zipWith, List.getElem_zip, List.getElem_map,
      List.getElem_tail, List.getElem_drop]
    exact quotient_guarded level _ _ (hseparate _ (List.getElem_mem _) _ (List.getElem_mem _))

theorem coefficientsFrom_guarded {zs : List (Node ℝ)}
    (hseparate : ∀ a ∈ zs, ∀ b ∈ zs, a.point ≠ b.point → a.abscissa ≠ b.abscissa)
    (count level : Nat) (column : List ℝ) :
    coefficientsFrom (zs.map Node.guarded) count level (column.map number)
      = (coefficientsFrom zs count level column).map number := by
  induction count generalizing level column with
  | zero => rfl
  | succ count ih =>
    rw [coefficientsFrom, coefficientsFrom, nextLevel_guarded hseparate, ih, headD_number,
      List.map_cons]

theorem coefficients_guarded {zs : List (Node ℝ)}
    (hseparate : ∀ a ∈ zs, ∀ b ∈ zs, a.point ≠ b.point → a.abscissa ≠ b.abscissa) :
    coefficients (zs.map Node.guarded) = (coefficients zs).map number := by
  have hvalues : (zs.map Node.guarded).map (fun z => z.orders.headD 0)
      = (zs.map fun z => z.orders.headD 0).map number := by
    rw [List.map_map, List.map_map]
    exact List.map_congr_left fun z _ => headD_number z.orders
  rw [coefficients, coefficients, hvalues, List.length_map, coefficientsFrom_guarded hseparate]

/-! ## Evaluation -/

theorem hornerStep_guarded (h c : ℝ) (values : List ℝ) :
    hornerStep (number h) (number c) (values.map number) = (hornerStep h c values).map number := by
  simp only [hornerStep, List.zipIdx_map, List.map_map]
  apply List.map_congr_left
  rintro ⟨value, p⟩ _
  simp only [Function.comp_apply, Prod.map, getD_number]
  by_cases hp : p = 0
  · simp only [hp]
    rfl
  · simp only [id, if_neg hp]
    rfl

theorem foldr_hornerStep_guarded (x : ℝ) (terms : List (Node ℝ × ℝ)) (start : List ℝ) :
    (terms.map (Prod.map Node.guarded number)).foldr
        (fun (z, c) values => hornerStep (number x - z.abscissa) c values) (start.map number)
      = (terms.foldr (fun (z, c) values => hornerStep (x - z.abscissa) c values) start).map
        number := by
  induction terms with
  | nil => rfl
  | cons term terms ih =>
    rw [List.map_cons, List.foldr_cons, ih, List.foldr_cons]
    exact hornerStep_guarded _ _ _

variable {abscissae : List ℝ} {samples : List (List ℝ)}

theorem nodes_guarded :
    nodes (abscissae.map number) (samples.map (·.map number))
      = (nodes abscissae samples).map Node.guarded := by
  simp only [nodes, List.zipIdx_map, List.flatMap_map, List.map_flatMap, List.map_replicate,
    Prod.map, List.length_map, getD_number]
  rfl

theorem abscissa_ne_of_sampled (h : Sampled abscissae samples) :
    ∀ a ∈ nodes abscissae samples, ∀ b ∈ nodes abscissae samples, a.point ≠ b.point →
      a.abscissa ≠ b.abscissa := by
  rw [nodes_eq]
  have hpoints {z : Node ℝ} (hz : z ∈ spread (points abscissae samples)) :
      z ∈ points abscissae samples := by
    obtain ⟨p, hp, hcopy⟩ := List.mem_flatMap.mp hz
    exact (List.mem_replicate.mp hcopy).2 ▸ hp
  intro a ha b hb hne
  have hsymmetric : Std.Symm fun a b : Node ℝ => a.point ≠ b.point ∧ a.abscissa ≠ b.abscissa :=
    ⟨fun _ _ h => ⟨h.1.symm, h.2.symm⟩⟩
  exact (h.separate.forall (hpoints ha) (hpoints hb) fun hab => hne (congrArg Node.point hab)).2

/-- At distinct abscissae nothing is divided by zero. -/
theorem evaluate_guarded (h : Sampled abscissae samples) (x : ℝ) (order : Nat) :
    evaluate (abscissae.map number) (samples.map (·.map number)) (number x) order
      = (evaluate abscissae samples x order).map number := by
  have hstart : List.replicate (order + 1) (0 : Guarded)
      = (List.replicate (order + 1) (0 : ℝ)).map number := by
    rw [List.map_replicate]
    rfl
  simp only [evaluate, nodes_guarded, coefficients_guarded (abscissa_ne_of_sampled h), hstart,
    List.zip_map]
  exact foldr_hornerStep_guarded x _ _

theorem evaluateVec3_guarded {samples : List (List (Vec3 ℝ))}
    (hlength : abscissae.length = samples.length) (hnodup : abscissae.Nodup) (x : ℝ)
    (order : Nat) :
    evaluateVec3 (abscissae.map number) (samples.map (·.map Vec3.guarded)) (number x) order
      = (evaluateVec3 abscissae samples x order).map Vec3.guarded := by
  have halong (part : Vec3 ℝ → ℝ) (partGuarded : Vec3 Guarded → Guarded)
      (hpart : ∀ u : Vec3 ℝ, partGuarded u.guarded = number (part u)) :
      evaluate (abscissae.map number)
          ((samples.map (·.map Vec3.guarded)).map (·.map partGuarded)) (number x) order
        = (evaluate abscissae (samples.map (·.map part)) x order).map number := by
    have hsampled : Sampled abscissae (samples.map (·.map part)) :=
      ⟨by rw [List.length_map, hlength], hnodup⟩
    rw [← evaluate_guarded hsampled]
    congr 1
    simp only [List.map_map, Function.comp_def, hpart]
  have hx := halong Vec3.x Vec3.x fun _ => rfl
  have hy := halong Vec3.y Vec3.y fun _ => rfl
  have hz := halong Vec3.z Vec3.z fun _ => rfl
  simp only [evaluateVec3, hx, hy, hz, List.zip_map, List.zipWith_map, List.map_zipWith]
  rfl

end AngularMotion.Hermite
