import AngularMotion.Refusal

/-!
# Trusted derivatives

A sample gives rotations, rates and accelerations, but not all of them need to be right. `Trust`
says up to which order of derivation they are used; the others are synthesized.
-/

namespace AngularMotion

inductive Trust where
  | rotation
  | rate
  | acceleration
deriving DecidableEq

namespace Trust

def all : List Trust := [rotation, rate, acceleration]

/-- The highest order of derivation that is used. -/
def maxOrder : Trust → Nat
  | rotation => 0
  | rate => 1
  | acceleration => 2

def name : Trust → String
  | rotation => "USE_R"
  | rate => "USE_RR"
  | acceleration => "USE_RRA"

/-- The choice that a value stands for: a number equal to its order. -/
def ofLiteral? : Literal → Option Trust
  | .quantity q => all.find? fun t => q.eq (.whole t.maxOrder)
  | _ => none

def ofLiteral (value : Literal) : Except Refusal Trust :=
  match ofLiteral? value with
  | some t => .ok t
  | none => .error (.unknownTrust value)

/-- The choice with a given highest order. -/
def ofOrder (value : Literal) : Except Refusal Trust :=
  match ofLiteral? value with
  | some t => .ok t
  | none => .error (.unsupportedOrder value)

theorem ofLiteral?_maxOrder (t : Trust) :
    ofLiteral? (.quantity (.whole t.maxOrder)) = some t := by
  cases t <;> decide

end Trust

end AngularMotion
