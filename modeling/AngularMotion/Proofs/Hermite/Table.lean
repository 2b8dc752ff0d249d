import AngularMotion.Proofs.Hermite.Difference
import AngularMotion.Proofs.Hermite.Horner

/-!
# The table of differences

Where a polynomial `F` has the known values and derivatives at the nodes of a table, the entries of
the table are the divided differences of `F` (`nextLevel_column`), so that the Newton form is the
interpolant of `F` at the nodes (`newton_coefficients`).
-/

namespace AngularMotion.Hermite

open Polynomial

/-! ## Stretches of nodes -/

section Stretches

variable {K : Type}

/-- The abscissae of `level + 1` nodes from an index on. -/
def stretch (zs : List (Node K)) (i level : Nat) : List K :=
  ((zs.drop i).take (level + 1)).map (·.abscissa)

/-- The abscissae of the nodes strictly between two ends. -/
def inner (zs : List (Node K)) (i level : Nat) : List K :=
  ((zs.drop (i + 1)).take level).map (·.abscissa)

theorem stretch_eq_cons (zs : List (Node K)) (i level : Nat) (h : i < zs.length) :
    stretch zs i level = zs[i].abscissa :: inner zs i level := by
  rw [stretch, List.drop_eq_getElem_cons h, List.take_succ_cons, List.map_cons, inner]

theorem stretch_succ_eq_concat (zs : List (Node K)) (i level : Nat)
    (h : i + 1 + level < zs.length) :
    stretch zs (i + 1) level = inner zs i level ++ [zs[i + 1 + level].abscissa] := by
  have hlen : level < (zs.drop (i + 1)).length := by rw [List.length_drop]; omega
  rw [stretch, List.take_succ_eq_append_getElem hlen, List.map_append, inner]
  simp

theorem inner_succ (zs : List (Node K)) (i level : Nat) :
    inner zs i (level + 1) = stretch zs (i + 1) level := rfl

/-! A run of copies of one node, and nodes after it. -/

variable {p : Node K} {k : Nat} {zs : List (Node K)}

theorem stretch_run {i level : Nat} (h : i + level < k) :
    stretch (.replicate k p ++ zs) i level = .replicate (level + 1) p.abscissa := by
  rw [stretch, List.drop_append_of_le_length (by simp; omega),
    List.take_append_of_le_length (by simp; omega)]
  simp
  omega

theorem stretch_beyond_run {i level : Nat} (h : k ≤ i) :
    stretch (.replicate k p ++ zs) i level = stretch zs (i - k) level := by
  simp [stretch, List.drop_append, h]

/-- Two nodes of a run and its rest: both in the run, the first one only, or none. -/
theorem getElem?_run {i level : Nat} {a b : Node K}
    (ha : (List.replicate k p ++ zs)[i]? = some a)
    (hb : (List.replicate k p ++ zs)[i + level]? = some b) :
    (i + level < k ∧ a = p ∧ b = p) ∨ (a = p ∧ b ∈ zs) ∨
      (k ≤ i ∧ zs[i - k]? = some a ∧ zs[i - k + level]? = some b) := by
  rcases Nat.lt_or_ge i k with hi | hi
  · have hap : a = p := by simpa [List.getElem?_append, hi, eq_comm] using ha
    rcases Nat.lt_or_ge (i + level) k with hl | hl
    · exact .inl ⟨hl, hap, by simpa [List.getElem?_append, hl, eq_comm] using hb⟩
    · refine .inr (.inl ⟨hap, ?_⟩)
      rw [List.getElem?_append_right (by simpa using hl)] at hb
      exact List.mem_of_getElem? hb
  · refine .inr (.inr ⟨hi, ?_, ?_⟩)
    · simpa [List.getElem?_append, not_lt.mpr hi] using ha
    · have hl : k ≤ i + level := by omega
      rw [List.getElem?_append_right (by simpa using hl), List.length_replicate,
        Nat.sub_add_comm hi] at hb
      exact hb

end Stretches

variable {K : Type} [Field K]

/-- What a table needs of its nodes: `F` has the known derivatives, the nodes between two of one
point are of that point as well, and different points have different abscissae. -/
structure Fits (F : K[X]) (zs : List (Node K)) : Prop where
  known : ∀ {i level : Nat} {a b : Node K}, zs[i]? = some a → zs[i + level]? = some b →
    a.point = b.point → a.orders.getD level 0 = (derivative^[level] F).eval a.abscissa
  run : ∀ {i level : Nat} {a b : Node K}, zs[i]? = some a → zs[i + level]? = some b →
    a.point = b.point → stretch zs i level = .replicate (level + 1) a.abscissa
  separate : ∀ {i level : Nat} {a b : Node K}, zs[i]? = some a → zs[i + level]? = some b →
    a.point ≠ b.point → a.abscissa ≠ b.abscissa

theorem factorial_eq (n : Nat) : factorial n = n.factorial := by
  induction n with
  | zero => rfl
  | succ n ih => rw [factorial, ih, Nat.factorial_succ]

/-! ## Columns -/

/-- The differences of one level. -/
noncomputable def column (F : K[X]) (zs : List (Node K)) (level : Nat) : List K :=
  (List.range (zs.length - level)).map fun i => difference F (stretch zs i level)

theorem column_zero {F : K[X]} {zs : List (Node K)} (h : Fits F zs) :
    zs.map (fun z => z.orders.headD 0) = column F zs 0 := by
  apply List.ext_getElem
  · simp [column]
  · intro i hi _
    have hi : i < zs.length := by simpa using hi
    have hget : zs[i]? = some zs[i] := List.getElem?_eq_getElem hi
    have hone : stretch zs i 0 = [zs[i].abscissa] := h.run hget hget rfl
    have hknown := h.known hget (show zs[i + 0]? = some zs[i] from hget) rfl
    simp only [List.getElem_map, column, List.getElem_range, hone, difference_singleton]
    simpa [List.headD_eq_head?_getD, List.head?_eq_getElem?] using hknown

theorem nextLevel_column [CharZero K] {F : K[X]} {zs : List (Node K)} (h : Fits F zs)
    (level : Nat) : nextLevel (level + 1) zs (column F zs level) = column F zs (level + 1) := by
  apply List.ext_getElem
  · simp [nextLevel, column]
    omega
  · intro i hi _
    have hi : i + 1 + level < zs.length := by
      simp [nextLevel, column] at hi
      omega
    have hlast : zs[level + 1 + i] = zs[i + 1 + level] := by
      congr 1
      omega
    have hget : zs[i]? = some zs[i] := List.getElem?_eq_getElem (by omega)
    have hget' : zs[i + (level + 1)]? = some zs[i + 1 + level] := by
      rw [← List.getElem?_eq_getElem hi]
      congr 1
      omega
    simp only [nextLevel, column, List.getElem_zipWith, List.getElem_zip, List.getElem_map,
      List.getElem_range, List.getElem_tail, List.getElem_drop, hlast]
    by_cases hpoint : zs[i].point = zs[i + 1 + level].point
    · rw [if_pos hpoint, h.known hget hget' hpoint, h.run hget hget' hpoint,
        difference_replicate, factorial_eq]
    · rw [if_neg hpoint, stretch_eq_cons zs i (level + 1) (by omega), inner_succ,
        stretch_succ_eq_concat zs i level hi, stretch_eq_cons zs i level (by omega),
        difference_of_ne F _ (h.separate hget hget' hpoint)]

theorem coefficientsFrom_column [CharZero K] {F : K[X]} {zs : List (Node K)} (h : Fits F zs)
    {count level : Nat} (hle : level + count ≤ zs.length) :
    coefficientsFrom zs count level (column F zs level)
      = (List.range count).map fun j => difference F (stretch zs 0 (level + j)) := by
  induction count generalizing level with
  | zero => rfl
  | succ count ih =>
    have hhead : (column F zs level).headD 0 = difference F (stretch zs 0 level) := by
      obtain ⟨m, hm⟩ : ∃ m, zs.length - level = m + 1 := ⟨zs.length - level - 1, by omega⟩
      simp [column, hm, List.range_succ_eq_map]
    rw [coefficientsFrom, hhead, nextLevel_column h, ih (by omega), List.range_succ_eq_map]
    simp [Nat.add_assoc, Nat.add_comm 1]

/-! ## The Newton form -/

theorem newton_differences (F : K[X]) (zs : List (Node K)) :
    newton (zs.zip ((List.range zs.length).map fun j => difference F (stretch zs 0 j)))
      = F %ₘ nodal (zs.map (·.abscissa)) := by
  induction zs generalizing F with
  | nil => simp [newton]
  | cons z zs ih =>
    have hrest : ∀ j, j < zs.length → difference F (stretch (z :: zs) 0 (j + 1))
        = difference (F /ₘ (X - C z.abscissa)) (stretch zs 0 j) := by
      intro j hj
      have hne : stretch zs 0 j ≠ [] := by
        intro hnil
        have := congrArg List.length hnil
        simp [stretch] at this
        simp [this] at hj
      exact difference_cons F z.abscissa hne
    have hfirst : difference F (stretch (z :: zs) 0 0) = F.eval z.abscissa :=
      difference_singleton F z.abscissa
    rw [List.length_cons, List.range_succ_eq_map, List.map_cons, List.map_map, List.zip_cons_cons,
      newton, hfirst, List.map_cons, nodal_cons,
      modByMonic_mul F (monic_X_sub_C z.abscissa) (nodal_monic _), modByMonic_X_sub_C_eq_C_eval,
      ← ih]
    congr 4
    apply List.map_congr_left
    intro j hj
    exact hrest j (List.mem_range.mp hj)

theorem newton_coefficients [CharZero K] {F : K[X]} {zs : List (Node K)} (h : Fits F zs) :
    newton (zs.zip (coefficients zs)) = F %ₘ nodal (zs.map (·.abscissa)) := by
  rw [coefficients, column_zero h, coefficientsFrom_column h (by omega)]
  simpa using newton_differences F zs

end AngularMotion.Hermite
