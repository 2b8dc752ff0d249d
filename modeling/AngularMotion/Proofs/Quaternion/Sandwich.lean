import AngularMotion.Proofs.Quaternion.Hamilton

/-!
# The rotation formula

Over every commutative ring the expanded formula rotates vectors as the product `q u q*` does
(`Normalized.sandwich`). So the product of two quaternions rotates by the right factor and then by the
left one (`Normalized.rotate_product`), and the conjugate rotates back
(`Normalized.conjugate_rotate_rotate`).

The product of two vectors in the ring of quaternions consists of their vector product and their dot
product (`Vec3.hamilton_mul`). A rotation takes products to products, and so it keeps both
(`Normalized.dot_rotate`, `Normalized.cross_rotate`).
-/

open scoped Quaternion

namespace AngularMotion

variable {R : Type} [CommRing R]

/-- The product of two vectors has the vector product as its imaginary part and the dot product,
turned round, as its real part. -/
theorem Vec3.hamilton_mul (u v : Vec3 R) :
    u.hamilton * v.hamilton = (u.cross v).hamilton - ((u.dot v : R) : ℍ[R]) := by
  ext <;> simp [Vec3.cross, Vec3.dot_eq] <;> ring

namespace Quaternion

variable {a b q : Quaternion R}

/-! ## Composition -/

theorem Normalized.sandwich (h : q.Normalized) (u : Vec3 R) :
    (q.product (ofVector u)).product q.conjugate = ofVector (q.rotate u) := by
  apply hamilton_injective
  rw [hamilton_product, hamilton_product, hamilton_conjugate, hamilton_ofVector, hamilton_ofVector,
    hamilton_rotate h]

theorem Normalized.rotate_product (ha : a.Normalized) (hb : b.Normalized) (u : Vec3 R) :
    (a.product b).rotate u = a.rotate (b.rotate u) := by
  apply Vec3.hamilton_injective
  rw [hamilton_rotate (ha.product hb), hamilton_product, star_mul, hamilton_rotate ha,
    hamilton_rotate hb]
  simp only [mul_assoc]

theorem Normalized.conjugate_rotate_rotate (h : q.Normalized) (u : Vec3 R) :
    q.conjugate.rotate (q.rotate u) = u := by
  apply Vec3.hamilton_injective
  rw [hamilton_rotate h.conjugate, hamilton_rotate h, hamilton_conjugate, star_star]
  simp only [mul_assoc, h.star_mul_hamilton_mul, h.star_mul_hamilton, mul_one]

/-! ## Products of vectors -/

theorem Normalized.rotate_mul_rotate (h : q.Normalized) (u v : Vec3 R) :
    (q.rotate u).hamilton * (q.rotate v).hamilton
      = q.hamilton * (u.hamilton * v.hamilton) * star q.hamilton := by
  rw [hamilton_rotate h, hamilton_rotate h]
  simp only [mul_assoc, h.star_mul_hamilton_mul]

/-- Scalars are not rotated. -/
theorem Normalized.mul_coe_mul_star (h : q.Normalized) (k : R) :
    q.hamilton * (k : ℍ[R]) * star q.hamilton = (k : ℍ[R]) := by
  rw [← Quaternion.coe_commutes, mul_assoc, h.hamilton_mul_star, mul_one]

/-- Both products at once. -/
theorem Normalized.hamilton_cross_sub_dot (h : q.Normalized) (u v : Vec3 R) :
    ((q.rotate u).cross (q.rotate v)).hamilton - (((q.rotate u).dot (q.rotate v) : R) : ℍ[R])
      = (q.rotate (u.cross v)).hamilton - ((u.dot v : R) : ℍ[R]) := by
  rw [← Vec3.hamilton_mul, h.rotate_mul_rotate, Vec3.hamilton_mul, mul_sub, sub_mul,
    h.mul_coe_mul_star, hamilton_rotate h]

theorem Normalized.dot_rotate (h : q.Normalized) (u v : Vec3 R) :
    (q.rotate u).dot (q.rotate v) = u.dot v := by
  simpa using congrArg (·.re) (h.hamilton_cross_sub_dot u v)

theorem Normalized.cross_rotate (h : q.Normalized) (u v : Vec3 R) :
    (q.rotate u).cross (q.rotate v) = q.rotate (u.cross v) := by
  have hboth := h.hamilton_cross_sub_dot u v
  rw [h.dot_rotate, sub_left_inj] at hboth
  exact Vec3.hamilton_injective hboth

/-! ## The action -/

/-- The expanded formula is the product `q u q*`. It acts on vectors as the product of quaternions
says, is undone by the conjugate, and keeps both products of vectors. -/
theorem rotate_sandwich (hq : q.Normalized) (ha : a.Normalized) (hb : b.Normalized) (u v : Vec3 R) :
    (q.product (ofVector u)).product q.conjugate = ofVector (q.rotate u)
      ∧ (a.product b).rotate u = a.rotate (b.rotate u)
      ∧ q.conjugate.rotate (q.rotate u) = u
      ∧ (q.rotate u).dot (q.rotate v) = u.dot v
      ∧ (q.rotate u).cross (q.rotate v) = q.rotate (u.cross v) :=
  ⟨hq.sandwich u, ha.rotate_product hb u, hq.conjugate_rotate_rotate u, hq.dot_rotate u v,
    hq.cross_rotate u v⟩

/-- A third of a turn about the diagonal takes each axis to the next one. -/
def thirdTurn : Quaternion ℚ := ⟨1 / 2, ⟨1 / 2, 1 / 2, 1 / 2⟩⟩

/-- Half a turn about the first axis. -/
def halfTurn : Quaternion ℚ := ⟨0, ⟨1, 0, 0⟩⟩

/-- The half turn acts first: the other way round the vector would go to `⟨3, -1, -2⟩`. -/
theorem thirdTurn_acts :
    thirdTurn.Normalized ∧ halfTurn.Normalized
      ∧ (thirdTurn.product (ofVector ⟨1, 2, 3⟩)).product thirdTurn.conjugate = ofVector ⟨3, 1, 2⟩
      ∧ (thirdTurn.product halfTurn).rotate ⟨1, 2, 3⟩ = ⟨-3, 1, -2⟩
      ∧ thirdTurn.conjugate.rotate ⟨3, 1, 2⟩ = ⟨1, 2, 3⟩
      ∧ Vec3.dot ⟨3, 1, 2⟩ (thirdTurn.rotate ⟨0, 1, -1⟩) = -1
      ∧ Vec3.cross ⟨3, 1, 2⟩ (thirdTurn.rotate ⟨0, 1, -1⟩) = thirdTurn.rotate ⟨-5, 1, 1⟩ := by
  have hthird : thirdTurn.Normalized := by
    rw [Normalized]
    decide +kernel
  have hhalf : halfTurn.Normalized := by
    rw [Normalized]
    decide +kernel
  have hturned : thirdTurn.rotate ⟨1, 2, 3⟩ = ⟨3, 1, 2⟩ := by decide +kernel
  have hafter : thirdTurn.rotate (halfTurn.rotate ⟨1, 2, 3⟩) = ⟨-3, 1, -2⟩ := by decide +kernel
  have hdots : Vec3.dot ⟨1, 2, 3⟩ ⟨0, 1, -1⟩ = (-1 : ℚ) := by decide +kernel
  have hcrossed : Vec3.cross ⟨1, 2, 3⟩ ⟨0, 1, -1⟩ = (⟨-5, 1, 1⟩ : Vec3 ℚ) := by decide +kernel
  obtain ⟨hformula, hproduct, hback, hdot, hcross⟩ :=
    rotate_sandwich hthird hthird hhalf ⟨1, 2, 3⟩ ⟨0, 1, -1⟩
  rw [hturned] at hformula hback hdot hcross
  rw [hafter] at hproduct
  rw [hdots] at hdot
  rw [hcrossed] at hcross
  exact ⟨hthird, hhalf, hformula, hproduct, hback, hdot, hcross⟩

end Quaternion

end AngularMotion
