/-!
# Nested lists of numbers

A number, or a list of such. The shape of a nesting is the list of its lengths, outermost first; it
has one when lists at the same depth have the same length.
-/

namespace AngularMotion

inductive Nested (α : Type) where
  | leaf (x : α)
  | node (items : List (Nested α))

namespace Nested

variable {α β : Type}

mutual

def map (f : α → β) : Nested α → Nested β
  | leaf x => leaf (f x)
  | node items => node (mapItems f items)

def mapItems (f : α → β) : List (Nested α) → List (Nested β)
  | [] => []
  | item :: rest => map f item :: mapItems f rest

end

mutual

/-- The numbers from first to last. -/
def leaves : Nested α → List α
  | leaf x => [x]
  | node items => leavesOf items

def leavesOf : List (Nested α) → List α
  | [] => []
  | item :: rest => leaves item ++ leavesOf rest

end

mutual

def shape? : Nested α → Option (List Nat)
  | leaf _ => some []
  | node [] => some [0]
  | node (item :: rest) => do
    let inner ← shape? item
    if sameShape inner rest then some ((rest.length + 1) :: inner) else none

/-- Whether all items have a given shape. -/
def sameShape (shape : List Nat) : List (Nested α) → Bool
  | [] => true
  | item :: rest => shape? item = some shape && sameShape shape rest

end

def ofList (xs : List α) : Nested α := node (xs.map leaf)

def ofRows (rows : List (List α)) : Nested α := node (rows.map ofList)

/-- The items of a list; a number has none. -/
def items : Nested α → List (Nested α)
  | leaf _ => []
  | node items => items

/-- The lists inside a list. -/
def rows (n : Nested α) : List (List α) := n.items.map leaves

example : shape? (ofRows [[1, 2, 3], [4, 5, 6]]) = some [2, 3] := by decide
example : shape? (ofRows [[1], [2, 3]]) = none := by decide

end Nested

end AngularMotion
