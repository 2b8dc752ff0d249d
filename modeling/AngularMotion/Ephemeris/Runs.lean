import AngularMotion.Ephemeris.Search

/-!
# Sorting in time

Instants that lie on one line have a stable order: each stands behind those that precede it, and
those that do not precede each other stay as they are. Other instants are ordered by runs, which
their comparisons may end with a fault.

A list falls into runs that are in order already, or strictly in reverse; short ones are lengthened
by insertion. Neighbouring runs are merged, in an order that keeps their lengths balanced. A merge
takes items one by one until one run has won often in a row, and then looks for the places to which
it may take many at once.

On instants that lie on one line the result would be the stable order as well. On others, where
being neither before nor after each other is not transitive or a comparison fails, it is what these
comparisons lead to.
-/

namespace AngularMotion.Chronology

variable {τ : Type} [Chronology τ]

namespace Runs

/-! ## Runs -/

/-- The items after `last` as long as each precedes the one before, or as long as none does, on top
of a reversed run; and the items behind them. -/
def takeRun (descending : Bool) (run : List τ) (last : τ) :
    List τ → Except ClockFault (List τ × List τ)
  | [] => .ok (run, [])
  | x :: rest => do
    if (← before x last) = descending then takeRun descending (x :: run) x rest
    else return (run, x :: rest)

/-- The first run, in order, and the items behind it. -/
def firstRun : List τ → Except ClockFault (List τ × List τ)
  | a :: b :: rest => do
    let descending ← before b a
    let (run, rest) ← takeRun descending [b, a] b rest
    return (if descending then run else run.reverse, rest)
  | items => .ok (items, [])

def insert (items : List τ) (x : τ) : Except ClockFault (List τ) := do
  let i ← upperBound x items
  return items.insertIdx i x

/-- The first run, lengthened to `least` items by insertion. -/
def lengthenedRun (least : Nat) (items : List τ) : Except ClockFault (List τ × List τ) := do
  let (run, rest) ← firstRun items
  let missing := least - run.length
  return (← (rest.take missing).foldlM insert run, rest.drop missing)

/-- The least length of runs: a list of fewer than sixty-four items is one run, and longer ones are
cut into nearly as many runs as a power of two. -/
def leastLength (n : Nat) (odd : Bool) : Nat :=
  if n < 64 then n + odd.toNat else leastLength (n / 2) (odd || n % 2 = 1)

/-! ## Merging two runs -/

/-- A merge on its way. Items are taken from the front of both runs, or, in merges from the end, from
the front of both reversed runs. -/
structure Merging (τ : Type) where
  /-- The items taken so far, last one first. -/
  taken : List τ
  /-- What is left of the shorter run. -/
  short : List τ
  /-- What is left of the longer run. -/
  long : List τ

namespace Merging

/-- Whether the rest of the merge is clear: of the shorter run at most one item is left, which comes
last, or of the longer run none. -/
def isOver (m : Merging τ) : Bool := m.short.length ≤ 1 || m.long.isEmpty

def result (m : Merging τ) : List τ := m.taken.reverse ++ m.long ++ m.short

def takeShort (n : Nat) (m : Merging τ) : Merging τ :=
  { m with taken := (m.short.take n).reverse ++ m.taken, short := m.short.drop n }

def takeLong (n : Nat) (m : Merging τ) : Merging τ :=
  { m with taken := (m.long.take n).reverse ++ m.taken, long := m.long.drop n }

end Merging

/-- Whether an item of the longer run is taken before one of the shorter run. -/
def longFirst (fromEnd : Bool) (short long : τ) : Except ClockFault Bool :=
  if fromEnd then before short long else before long short

/-- Takes items one by one until the merge is over or one run has won `patience` times in a row. -/
def alternate (fromEnd : Bool) (patience : Nat) :
    (taken short long : List τ) → (shortWins longWins : Nat) → Except ClockFault (Merging τ)
  | taken, short :: shorts, long :: longs, shortWins, longWins => do
    if ← longFirst fromEnd short long then
      let m : Merging τ := ⟨long :: taken, short :: shorts, longs⟩
      if m.isOver || patience ≤ longWins + 1 then return m
      else alternate fromEnd patience (long :: taken) (short :: shorts) longs 0 (longWins + 1)
    else
      let m : Merging τ := ⟨short :: taken, shorts, long :: longs⟩
      if m.isOver || patience ≤ shortWins + 1 then return m
      else alternate fromEnd patience (short :: taken) shorts (long :: longs) (shortWins + 1) 0
  | taken, short, long, _, _ => .ok ⟨taken, short, long⟩
termination_by _ short long => short.length + long.length

/-- How many items at the front of a run pass a test, which the items of the run pass up to some
place. The search begins at the front, which in merges from the end is the end of the run. -/
def leading (fromEnd : Bool) (test : τ → Except ClockFault Bool) (items : List τ) :
    Except ClockFault Nat := do
  let n := items.length
  if fromEnd then
    return n - (← gallop (atPlaces items.reverse.toArray test) n (n - 1))
  else gallop (atPlaces items.toArray fun x => not <$> test x) n 0

/-- Takes the items of the shorter run that go before the next one of the longer run, and then that
one, unless the merge is over before; and how many they were. -/
def leapShort (fromEnd : Bool) (m : Merging τ) : Except ClockFault (Merging τ × Nat) := do
  match m.long with
  | [] => return (m, 0)
  | long :: _ =>
    let n ← leading fromEnd (fun short => not <$> longFirst fromEnd short long) m.short
    let m := m.takeShort n
    return (if m.isOver then m else m.takeLong 1, n)

/-- Takes the items of the longer run that go before the next one of the shorter run, and then that
one, unless the merge is over before; and how many they were. -/
def leapLong (fromEnd : Bool) (m : Merging τ) : Except ClockFault (Merging τ × Nat) := do
  match m.short with
  | [] => return (m, 0)
  | short :: _ =>
    let n ← leading fromEnd (longFirst fromEnd short) m.long
    let m := m.takeLong n
    return (if m.isOver then m else m.takeShort 1, n)

/-- The length from which on many items at once are worth a search. -/
def worthwhile : Nat := 7

/-- Takes many items at once as long as that is worthwhile. Each time it is, patience shrinks, and
when it is no longer, patience grows. -/
def leap (fromEnd : Bool) : (fuel patience : Nat) → Merging τ →
    Except ClockFault (Merging τ × Nat)
  | 0, patience, m => .ok (m, patience)
  | fuel + 1, patience, m => do
    let patience := max 1 (patience - 1)
    let (m, first) ← if fromEnd then leapLong fromEnd m else leapShort fromEnd m
    if m.isOver then return (m, patience)
    let (m, second) ← if fromEnd then leapShort fromEnd m else leapLong fromEnd m
    if m.isOver then return (m, patience)
    if worthwhile ≤ first || worthwhile ≤ second then leap fromEnd fuel patience m
    else return (m, patience + 1)

/-- Ends a merge, and the patience that is left. -/
def proceed (fromEnd : Bool) : (fuel patience : Nat) → Merging τ →
    Except ClockFault (List τ × Nat)
  | 0, patience, m => .ok (m.result, patience)
  | fuel + 1, patience, m => do
    if m.isOver then return (m.result, patience)
    let m ← alternate fromEnd patience m.taken m.short m.long 0 0
    if m.isOver then return (m.result, patience)
    let (m, patience) ← leap fromEnd (m.short.length + m.long.length) (patience + 1) m
    proceed fromEnd fuel patience m

/-- Merges two runs of which the first item of the second and the last item of the first are known to
move. -/
def mergeMoving (patience : Nat) (a b : List τ) : Except ClockFault (List τ × Nat) := do
  let start (short long : List τ) : Merging τ := Merging.takeLong 1 ⟨[], short, long⟩
  if a.length ≤ b.length then proceed false (a.length + b.length) patience (start a b)
  else
    let (items, patience) ←
      proceed true (a.length + b.length) patience (start b.reverse a.reverse)
    return (items.reverse, patience)

/-- Merges two runs. Items at the outer ends that are in place already stay there. -/
def merge (patience : Nat) (a b : List τ) : Except ClockFault (List τ × Nat) := do
  match b with
  | [] => return (a, patience)
  | first :: _ =>
    let settled ← gallop (atPlaces a.toArray (before first)) a.length 0
    match (a.drop settled).getLast? with
    | none => return (a ++ b, patience)
    | some last =>
      let moving ← gallop (atPlaces b.toArray fun x => not <$> before x last) b.length
        (b.length - 1)
      if moving = 0 then return (a ++ b, patience)
      let (items, patience) ← mergeMoving patience (a.drop settled) (b.take moving)
      return (a.take settled ++ items ++ b.drop moving, patience)

/-! ## The order of merges -/

/-- A run with its place in the list, and how deep in a balanced tree of merges the merge with its
right neighbour lies. -/
structure Run (τ : Type) where
  start : Nat
  items : List τ
  depth : Nat

/-- The depth at which two fractions `a / n < b / n` first differ in binary. -/
def splitDepth (n : Nat) : (fuel a b : Nat) → Nat
  | 0, _, _ => 0
  | fuel + 1, a, b =>
    if n ≤ a then splitDepth n fuel (2 * (a - n)) (2 * (b - n)) + 1
    else if n ≤ b then 1
    else splitDepth n fuel (2 * a) (2 * b) + 1

/-- The depth of the merge of two neighbouring runs in a list of `n` items: that of their middles. -/
def depthBetween (n start first second : Nat) : Nat :=
  splitDepth n (n.log2 + 2) (2 * start + first) (2 * start + 2 * first + second)

/-- The runs found so far, last one first, and the patience of merges. -/
structure Pending (τ : Type) where
  runs : List (Run τ)
  patience : Nat

/-- Merges two neighbouring runs. -/
def Run.append (patience : Nat) (a b : Run τ) : Except ClockFault (Run τ × Nat) := do
  let (items, patience) ← merge patience a.items b.items
  return ({ a with items }, patience)

/-- Merges the last runs as long as the merge before them lies deeper than `depth`. -/
def mergeDeeper (depth : Nat) : (fuel patience : Nat) → List (Run τ) →
    Except ClockFault (Pending τ)
  | fuel + 1, patience, b :: a :: rest => do
    if depth < a.depth then
      let (merged, patience) ← a.append patience b
      mergeDeeper depth fuel patience (merged :: rest)
    else return ⟨b :: a :: rest, patience⟩
  | _, patience, runs => .ok ⟨runs, patience⟩

/-- Adds a run of a list of `n` items. -/
def Pending.add (n : Nat) (p : Pending τ) (items : List τ) : Except ClockFault (Pending τ) := do
  match p.runs with
  | [] => return { p with runs := [⟨0, items, 0⟩] }
  | last :: _ =>
    let depth := depthBetween n last.start last.items.length items.length
    let p ← mergeDeeper depth p.runs.length p.patience p.runs
    match p.runs with
    | [] => return { p with runs := [⟨0, items, 0⟩] }
    | last :: rest =>
      let start := last.start + last.items.length
      return { p with runs := ⟨start, items, 0⟩ :: { last with depth } :: rest }

/-- Merges all runs, from the last ones on, or before them if their neighbour is shorter. -/
def mergeAll : (fuel patience : Nat) → List (Run τ) → Except ClockFault (List τ)
  | fuel + 1, patience, c :: b :: a :: rest => do
    if a.items.length < c.items.length then
      let (merged, patience) ← a.append patience b
      mergeAll fuel patience (c :: merged :: rest)
    else
      let (merged, patience) ← b.append patience c
      mergeAll fuel patience (merged :: a :: rest)
  | _, patience, [b, a] => do return (← a.append patience b).1.items
  | _, _, runs => .ok (runs.reverse.flatMap (·.items))

/-- Adds the runs of the items that are left. -/
def addRuns (n least : Nat) : (fuel : Nat) → Pending τ → List τ → Except ClockFault (Pending τ)
  | 0, p, _ | _, p, [] => .ok p
  | fuel + 1, p, items => do
    let (run, rest) ← lengthenedRun (min least items.length) items
    addRuns n least fuel (← p.add n run) rest

def sort (items : List τ) : Except ClockFault (List τ) := do
  let n := items.length
  let p ← addRuns n (leastLength n false) n ⟨[], worthwhile⟩ items
  mergeAll p.runs.length p.patience p.runs

end Runs

/-! ## Instants on a line -/

/-- Whether an instant may stand before another: unless that one precedes it. -/
def mayStandBefore (a b : τ) : Bool :=
  match before b a with
  | .ok precedes => !precedes
  | .error _ => true

def sort (items : List τ) : Except ClockFault (List τ) :=
  if aligned items then .ok (items.mergeSort mayStandBefore) else Runs.sort items

end AngularMotion.Chronology
