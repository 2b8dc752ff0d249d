import AngularMotion.Coordinates

/-!
# Modified Rodrigues vectors

A rotation by `θ` about the unit axis `u` has the modified Rodrigues vector `tan (θ / 4) u`, that is
`v / (1 + w)`. It is kept with its first two derivatives in time. The vector is finite except where
`w = -1`; the sign that is given when encoding chooses between the two representatives of the
rotation, and with it the place of that singularity.
-/

namespace AngularMotion

/-- A modified Rodrigues vector and its first two derivatives. -/
@[ext] structure Rodrigues (α : Type) where
  value : Vec3 α
  first : Vec3 α
  second : Vec3 α
deriving DecidableEq

namespace Rodrigues

variable {α : Type}

def rows (r : Rodrigues α) : List (Vec3 α) := [r.value, r.first, r.second]

/-- The first three rows of a list. Where there are fewer, the last one is repeated. -/
def ofRows? : List (Vec3 α) → Option (Rodrigues α)
  | [] => none
  | a :: rest =>
    let b := rest.headD a
    some ⟨a, b, (rest.drop 1).headD b⟩

@[simp] theorem ofRows?_rows (r : Rodrigues α) : ofRows? r.rows = some r := rfl

def map (f : α → α) (r : Rodrigues α) : Rodrigues α :=
  ⟨r.value.map f, r.first.map f, r.second.map f⟩

section Formulas

variable [SumOfProducts α] [Add α] [Sub α] [Mul α] [Neg α] [Div α] [OfNat α 2]

/-- The quotient `v / (1 + w)` of `sign • q`, differentiated twice with the kinematic equations
`q' = ½ (0, Ω) q` and `q'' = ½ (0, Ω') q + ½ (0, Ω) q'`. -/
def encode [Zero α] [One α] (c : Coordinates α) (sign : α) : Rodrigues α :=
  let q := sign • c.rotation
  let q₁ := (Quaternion.ofVector c.rate).product q / (2 : α)
  let q₂ := ((Quaternion.ofVector c.acceleration).product q
    + (Quaternion.ofVector c.rate).product q₁) / (2 : α)
  let k := 1 / (1 + q.w)
  let r := k • q.v
  let r₁ := k • (q₁.v - q₁.w • r)
  let r₂ := k • (q₂.v - q₁.w • ((2 : α) • r₁) - q₂.w • r)
  ⟨r, r₁, r₂⟩

/-- The rotation `(k - 1, k r)` with `k = 2 / (1 + r²)`, its rate and its acceleration. The
rotation has norm one for every vector `r`. -/
def decode [One α] (r : Rodrigues α) : Coordinates α :=
  let k := 2 / (1 + r.value.dot r.value)
  let s := r.value.dot r.first
  let k₁ := -k * k * s
  let k₂ := -2 * k * k₁ * s - k * k * (r.first.dot r.first + r.value.dot r.second)
  let q : Quaternion α := ⟨k - 1, k • r.value⟩
  let q₁ : Quaternion α := ⟨k₁, k₁ • r.value + k • r.first⟩
  let q₂ : Quaternion α := ⟨k₂, k₂ • r.value + (2 * k₁) • r.first + k • r.second⟩
  { rotation := q
    rate := (2 : α) • (q₁.product q.conjugate).v
    acceleration := (2 : α) • (q₂.product q.conjugate).v }

/-- Coordinates at the working precision. -/
def coordinates [One α] (p : Working α) (r : Rodrigues α) : Coordinates α :=
  let c := (r.map p.store).decode
  ⟨c.rotation, c.rate.map p.store, c.acceleration.map p.store⟩

end Formulas

end Rodrigues

end AngularMotion
