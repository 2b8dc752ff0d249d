import AngularMotion.Literal
import AngularMotion.Row
import AngularMotion.Time.Timeline
import AngularMotion.Time.Written

/-!
# Refusals

Why values given in a request make no sense there, or do not go together.
-/

namespace AngularMotion

inductive Refusal where
  /-- Instants or quantities could not be combined. -/
  | clock (fault : ClockFault)
  /-- A text is no date or time. -/
  | written (fault : WrittenFault)
  | unknownTrust (value : Literal)
  | unsupportedOrder (value : Literal)
  | unsupportedPrecision (shown : String)
  /-- Only a quaternion is a factor of a quaternion. -/
  | notAFactor (kind : String)
  /-- A sequence is multiplied by a whole number alone, which repeats it. -/
  | notACount
  /-- Motion at an instant is compared with motion without one. -/
  | noInstant
  /-- Samples are lists of a depth other than three. -/
  | nesting (depth : Nat)
  | noRows
  /-- Samples without abscissae. -/
  | noAbscissae
  | shape (fault : ShapeFault)

namespace Refusal

/-- The text of a refusal. Shapes are refused without one. -/
def message? : Refusal → Option String
  | clock fault => fault.message?
  | written fault => some fault.message
  | unknownTrust value => some (value.shown ++ " is not a valid AngularDerivativesFilter")
  | unsupportedOrder value =>
    some ("Unsupported derivation order " ++ value.plain ++ ". Must be 0, 1 or 2")
  | unsupportedPrecision shown =>
    some ("Unsupported dtype " ++ shown
      ++ ", expected one of jnp.float16, jnp.bfloat16, jnp.float32, jnp.float64")
  | notAFactor kind => some s!"unsupported operand type(s) for *: 'Quaternion' and '{kind}'"
  | notACount => some "can't multiply sequence by non-int of type 'Quaternion'"
  | noInstant => some "'AngularCoordinates' object has no attribute 'time'"
  | nesting depth =>
    if 3 < depth then some "too many values to unpack (expected 3)"
    else some s!"not enough values to unpack (expected 3, got {depth})"
  | noRows => some "list index out of range"
  | noAbscissae | shape _ => none

/-- Why a value is no factor of a quaternion. Texts and lists are sequences. -/
def ofFactor : Literal → Refusal
  | .text _ | .list _ => notACount
  | value => notAFactor value.kindName

def arithmetic (fault : ArithmeticFault) : Refusal := clock (.arithmetic fault)

end Refusal

end AngularMotion
