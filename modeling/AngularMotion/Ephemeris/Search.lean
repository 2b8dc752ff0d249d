import AngularMotion.Time.Timeline

/-!
# Search in an order

Places in a sorted list are found by halving a range, or by steps of growing length from a place
where the sought one is expected. The tests made on the way are comparisons of instants, and one that
fails ends the search.
-/

namespace AngularMotion.Chronology

/-- The first place from `low` to `high` from which on a test holds. -/
def bisect (test : Nat → Except ClockFault Bool) (low high : Nat) : Except ClockFault Nat :=
  if _inside : low < high then
    match test ((low + high) / 2) with
    | .error fault => .error fault
    | .ok true => bisect test low ((low + high) / 2)
    | .ok false => bisect test ((low + high) / 2 + 1) high
  else .ok low
termination_by high - low

/-- The longest of the steps 1, 3, 7, … such that a test holds of it and of those before it, or zero,
and the next one. No step is longer than `limit`, and the limit itself is not tested. -/
def stride (test : Nat → Except ClockFault Bool) (limit : Nat) :
    (fuel last step : Nat) → Except ClockFault (Nat × Nat)
  | 0, last, _ => .ok (last, limit)
  | fuel + 1, last, step => do
    if limit ≤ step then return (last, limit)
    if ← test step then stride test limit fuel step (2 * step + 1) else return (last, step)

/-- The first of `count` places from which on a test holds, searched for from `hint` outwards. -/
def gallop (test : Nat → Except ClockFault Bool) (count hint : Nat) : Except ClockFault Nat := do
  if ← test hint then
    let (near, far) ← stride (fun k => test (hint - k)) (hint + 1) count 0 1
    bisect test (hint + 1 - far) (hint - near)
  else
    let (near, far) ← stride (fun k => not <$> test (hint + k)) (count - hint) count 0 1
    bisect test (hint + near + 1) (hint + far)

variable {τ : Type} [Chronology τ]

/-- A test of items as one of places. -/
def atPlaces (items : Array τ) (test : τ → Except ClockFault Bool) (i : Nat) :
    Except ClockFault Bool :=
  match items[i]? with
  | some x => test x
  | none => .ok true

/-- The place behind the last item that `x` does not precede. -/
def upperBound (x : τ) (items : List τ) : Except ClockFault Nat :=
  bisect (atPlaces items.toArray (before x)) 0 items.length

end AngularMotion.Chronology
