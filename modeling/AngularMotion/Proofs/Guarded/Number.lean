import AngularMotion.Exact

/-!
# Numbers with guarded division

A guarded number is a real number or undefined. The quotient by zero is undefined, and so is every
operation on what is undefined. The formulas are written for guarded numbers as for real ones: what
they give is a number only if nothing that it was made of was divided by zero.
-/

namespace AngularMotion

inductive Guarded where
  | number (x : ℝ)
  | undefined

noncomputable section

namespace Guarded

def map (f : ℝ → ℝ) : Guarded → Guarded
  | number x => number (f x)
  | undefined => undefined

def map₂ (f : ℝ → ℝ → ℝ) : Guarded → Guarded → Guarded
  | number x, number y => number (f x y)
  | _, _ => undefined

/-! ## Operations -/

instance : Zero Guarded := ⟨number 0⟩
instance : One Guarded := ⟨number 1⟩
instance : NatCast Guarded := ⟨fun n => number n⟩
instance : OfScientific Guarded := ⟨fun m s e => number (OfScientific.ofScientific m s e)⟩
instance : Add Guarded := ⟨map₂ (· + ·)⟩
instance : Sub Guarded := ⟨map₂ (· - ·)⟩
instance : Mul Guarded := ⟨map₂ (· * ·)⟩
instance : Neg Guarded := ⟨map (-·)⟩

/-- The quotient by zero is undefined. -/
def quotient : Guarded → Guarded → Guarded
  | number x, number y => if y = 0 then undefined else number (x / y)
  | _, _ => undefined

instance : Div Guarded := ⟨quotient⟩

/-- Only numbers are compared. -/
def less : Guarded → Guarded → Prop
  | number x, number y => x < y
  | _, _ => False

instance : LT Guarded := ⟨less⟩

instance : DecidableLT Guarded
  | number x, number y => inferInstanceAs (Decidable (x < y))
  | number _, undefined => inferInstanceAs (Decidable False)
  | undefined, _ => inferInstanceAs (Decidable False)

instance : Elementary Guarded where
  pi := number Elementary.pi
  sqrt := map Elementary.sqrt
  sin := map Elementary.sin
  cos := map Elementary.cos
  arctan2 := map₂ Elementary.arctan2
  abs := map Elementary.abs
  direction := map Elementary.direction

instance : Storable Guarded where
  sumOfProducts pairs := (pairs.map fun (a, b) => a * b).sum
  total := List.sum
  mean xs := xs.sum / (xs.length : Nat)
  like _ x := x
  plain x := x

/-- Instants are numbers of seconds. -/
instance : Timeline Guarded Guarded where
  before a b := .ok (decide (a < b))
  after a b := .ok (decide (b < a))
  aligned _ := true
  since a b := .ok (a - b)
  shift a dt := .ok (a + dt)

/-! ## Numbers -/

variable {x y : ℝ}

/-- The quotient by a number other than zero is a number. -/
theorem number_div (h : y ≠ 0) : number x / number y = number (x / y) := if_neg h

theorem number_half (x : ℝ) : number x / 2 = number (x / 2) := number_div two_ne_zero

theorem sum_number (xs : List ℝ) : (xs.map number).sum = number xs.sum := by
  induction xs with
  | nil => rfl
  | cons x xs ih =>
    rw [List.map_cons, List.sum_cons, ih, List.sum_cons]
    rfl

theorem mean_number {xs : List ℝ} (h : xs ≠ []) :
    Storable.mean (xs.map number) = number (Storable.mean xs) := by
  have hlength : ((xs.length : Nat) : ℝ) ≠ 0 := by simpa using h
  change (xs.map number).sum / ((xs.map number).length : Guarded) = _
  rw [sum_number, List.length_map]
  exact number_div hlength

end Guarded

end

end AngularMotion
