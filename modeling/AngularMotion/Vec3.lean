import AngularMotion.Number.Elementary

/-! # Vectors of three components -/

namespace AngularMotion

@[ext] structure Vec3 (α : Type) where
  x : α
  y : α
  z : α
deriving DecidableEq

namespace Vec3

variable {α : Type}

def map (f : α → α) (v : Vec3 α) : Vec3 α := ⟨f v.x, f v.y, f v.z⟩

def toList (v : Vec3 α) : List α := [v.x, v.y, v.z]

def ofList? : List α → Option (Vec3 α)
  | [x, y, z] => some ⟨x, y, z⟩
  | _ => none

@[simp] theorem ofList?_toList (v : Vec3 α) : ofList? v.toList = some v := rfl

/-- Whether a test holds of every component. -/
def all (test : α → Bool) (v : Vec3 α) : Bool := test v.x && test v.y && test v.z

instance [Zero α] : Zero (Vec3 α) := ⟨⟨0, 0, 0⟩⟩
instance [Add α] : Add (Vec3 α) := ⟨fun a b => ⟨a.x + b.x, a.y + b.y, a.z + b.z⟩⟩
instance [Sub α] : Sub (Vec3 α) := ⟨fun a b => ⟨a.x - b.x, a.y - b.y, a.z - b.z⟩⟩
instance [Neg α] : Neg (Vec3 α) := ⟨map (-·)⟩
instance [Mul α] : SMul α (Vec3 α) := ⟨fun k => map (k * ·)⟩
instance [Div α] : HDiv (Vec3 α) α (Vec3 α) := ⟨fun v k => v.map (· / k)⟩

section Components

variable (a b v : Vec3 α) (k : α)

@[simp] theorem zero_x [Zero α] : (0 : Vec3 α).x = 0 := rfl
@[simp] theorem zero_y [Zero α] : (0 : Vec3 α).y = 0 := rfl
@[simp] theorem zero_z [Zero α] : (0 : Vec3 α).z = 0 := rfl
@[simp] theorem add_x [Add α] : (a + b).x = a.x + b.x := rfl
@[simp] theorem add_y [Add α] : (a + b).y = a.y + b.y := rfl
@[simp] theorem add_z [Add α] : (a + b).z = a.z + b.z := rfl
@[simp] theorem sub_x [Sub α] : (a - b).x = a.x - b.x := rfl
@[simp] theorem sub_y [Sub α] : (a - b).y = a.y - b.y := rfl
@[simp] theorem sub_z [Sub α] : (a - b).z = a.z - b.z := rfl
@[simp] theorem neg_x [Neg α] : (-v).x = -v.x := rfl
@[simp] theorem neg_y [Neg α] : (-v).y = -v.y := rfl
@[simp] theorem neg_z [Neg α] : (-v).z = -v.z := rfl
@[simp] theorem smul_x [Mul α] : (k • v).x = k * v.x := rfl
@[simp] theorem smul_y [Mul α] : (k • v).y = k * v.y := rfl
@[simp] theorem smul_z [Mul α] : (k • v).z = k * v.z := rfl
@[simp] theorem div_x [Div α] : (v / k).x = v.x / k := rfl
@[simp] theorem div_y [Div α] : (v / k).y = v.y / k := rfl
@[simp] theorem div_z [Div α] : (v / k).z = v.z / k := rfl

end Components

def dot [SumOfProducts α] (a b : Vec3 α) : α :=
  SumOfProducts.sumOfProducts [(a.x, b.x), (a.y, b.y), (a.z, b.z)]

/-- The vector product; it turns the first axis into the third by way of the second. -/
def cross [Sub α] [Mul α] (a b : Vec3 α) : Vec3 α :=
  ⟨a.y * b.z - a.z * b.y, a.z * b.x - a.x * b.z, a.x * b.y - a.y * b.x⟩

def norm [Mul α] [Elementary α] [Storable α] (v : Vec3 α) : α :=
  Elementary.sqrt (Storable.total [v.x * v.x, v.y * v.y, v.z * v.z])

def mean [Storable α] (vs : List (Vec3 α)) : Vec3 α :=
  ⟨Storable.mean (vs.map x), Storable.mean (vs.map y), Storable.mean (vs.map z)⟩

end Vec3

end AngularMotion
