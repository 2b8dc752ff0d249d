import AngularMotion.Vec3

/-!
# Quaternions

A quaternion has a scalar part `w` and a vector part `v`. A unit quaternion stands for the
rotation that takes a vector `u` to the vector part of `q u q*`; `q` and `-q` stand for the same
one. Nothing here needs more than the field operations, and nothing is normalized.
-/

namespace AngularMotion

@[ext] structure Quaternion (α : Type) where
  w : α
  v : Vec3 α
deriving DecidableEq

namespace Quaternion

variable {α : Type}

def map (f : α → α) (q : Quaternion α) : Quaternion α := ⟨f q.w, q.v.map f⟩

/-- The components, scalar part first. -/
def toList (q : Quaternion α) : List α := q.w :: q.v.toList

def ofList? : List α → Option (Quaternion α)
  | [w, x, y, z] => some ⟨w, ⟨x, y, z⟩⟩
  | _ => none

@[simp] theorem ofList?_toList (q : Quaternion α) : ofList? q.toList = some q := rfl

/-- The components, scalar part last. -/
def toListScalarLast (q : Quaternion α) : List α := q.v.toList ++ [q.w]

/-- The component at an index. Negative indices count from the end, and an index beyond either
end gives the component there. -/
def component (q : Quaternion α) (index : Int) : α :=
  let i := if index < 0 then index + 4 else index
  if i ≤ 0 then q.w else if i = 1 then q.v.x else if i = 2 then q.v.y else q.v.z

instance [Neg α] : Neg (Quaternion α) := ⟨map (-·)⟩
instance [Add α] : Add (Quaternion α) := ⟨fun a b => ⟨a.w + b.w, a.v + b.v⟩⟩
instance [Sub α] : Sub (Quaternion α) := ⟨fun a b => ⟨a.w - b.w, a.v - b.v⟩⟩
instance [Mul α] : SMul α (Quaternion α) := ⟨fun k => map (k * ·)⟩
instance [Div α] : HDiv (Quaternion α) α (Quaternion α) := ⟨fun q k => q.map (· / k)⟩

section Components

variable (a b q : Quaternion α) (k : α)

@[simp] theorem neg_w [Neg α] : (-q).w = -q.w := rfl
@[simp] theorem neg_v [Neg α] : (-q).v = -q.v := rfl
@[simp] theorem add_w [Add α] : (a + b).w = a.w + b.w := rfl
@[simp] theorem add_v [Add α] : (a + b).v = a.v + b.v := rfl
@[simp] theorem sub_w [Sub α] : (a - b).w = a.w - b.w := rfl
@[simp] theorem sub_v [Sub α] : (a - b).v = a.v - b.v := rfl
@[simp] theorem smul_w [Mul α] : (k • q).w = k * q.w := rfl
@[simp] theorem smul_v [Mul α] : (k • q).v = k • q.v := rfl
@[simp] theorem div_w [Div α] : (q / k).w = q.w / k := rfl
@[simp] theorem div_v [Div α] : (q / k).v = q.v / k := rfl

end Components

/-- A vector as a quaternion without scalar part. -/
def ofVector [Zero α] (v : Vec3 α) : Quaternion α := ⟨0, v⟩

/-- The Hamilton product. As rotations, the right factor acts first. -/
def product [SumOfProducts α] [Add α] [Sub α] [Mul α] (a b : Quaternion α) : Quaternion α :=
  ⟨a.w * b.w - a.v.dot b.v, a.w • b.v + b.w • a.v + a.v.cross b.v⟩

/-- The vector part turned round. The components are multiplied by their signs. -/
def conjugate [One α] [Neg α] [Mul α] (q : Quaternion α) : Quaternion α :=
  ⟨1 * q.w, (-1 : α) • q.v⟩

def dot [SumOfProducts α] (a b : Quaternion α) : α :=
  SumOfProducts.sumOfProducts [(a.w, b.w), (a.v.x, b.v.x), (a.v.y, b.v.y), (a.v.z, b.v.z)]

/-- The rotation of a vector by a unit quaternion: `q u q*`, multiplied out. -/
def rotate [Add α] [Sub α] [Mul α] [OfNat α 2] (q : Quaternion α) (u : Vec3 α) : Vec3 α :=
  let t := (2 : α) • q.v.cross u
  u + q.w • t + q.v.cross t

/-- The sum of the squares of the components. -/
def normSq [SumOfProducts α] (q : Quaternion α) : α := q.dot q

end Quaternion

end AngularMotion
