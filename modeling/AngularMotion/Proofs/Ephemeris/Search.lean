import AngularMotion.Ephemeris
import Mathlib.Data.List.Pairwise
import Mathlib.Order.Lattice

/-!
# Sorting and searching in time

Items that are compared by their keys (`OrderedBy`) are sorted by them (`sort_aligned`). If the keys
are different, a sample in any order is sorted into one and the same table (`sort_perm`).

Where all instants of a set lie on one line and are compared by their keys (`OrderedOn`) no comparison
fails. Halving a sorted table then counts the instants that are not after a given one
(`upperBound_eq_countP`). Instants that are compared by a linear order (`Ordered`) are a case of this:
a sample is sorted by them (`sort_ordered`).
-/

namespace AngularMotion.Chronology

/-- Instants are compared by a linear order, and all of them lie on one line. -/
class Ordered (τ : Type) [LinearOrder τ] [Chronology τ] : Prop where
  before_eq : ∀ a b : τ, before a b = .ok (decide (a < b))
  after_eq : ∀ a b : τ, after a b = .ok (decide (b < a))
  aligned_eq : ∀ instants : List τ, aligned instants = true

/-- The instants of a set are compared by their keys, and all of them lie on one line. -/
structure OrderedOn {τ κ : Type} [Chronology τ] [LinearOrder κ] (key : τ → κ) (line : Set τ) :
    Prop where
  before_eq : ∀ a ∈ line, ∀ b ∈ line, before a b = .ok (decide (key a < key b))
  after_eq : ∀ a ∈ line, ∀ b ∈ line, after a b = .ok (decide (key b < key a))
  aligned_eq : ∀ instants : List τ, (∀ t ∈ instants, t ∈ line) → aligned instants = true

/-! ## Halving -/

/-- Halving finds the first place from which on the test holds, if every place before the range
fails it and every place behind the range passes it. -/
theorem bisect_first {test : Nat → Except ClockFault Bool} {holds : Nat → Prop}
    [DecidablePred holds] {n : Nat} (htest : ∀ i < n, test i = .ok (decide (holds i)))
    (hmono : ∀ i j, i ≤ j → j < n → holds i → holds j) (low high : Nat) (hle : low ≤ high)
    (hhigh : high ≤ n) (hbelow : ∀ i < low, ¬ holds i) (habove : ∀ i < n, high ≤ i → holds i) :
    ∃ k ≤ n, bisect test low high = .ok k ∧ ∀ i < n, holds i ↔ k ≤ i := by
  fun_induction bisect test low high with
  | case1 low high hinside fault hfault =>
    rw [htest _ (by omega)] at hfault
    cases hfault
  | case2 low high hinside htrue ih =>
    rw [htest _ (by omega)] at htrue
    have hholds : holds ((low + high) / 2) := by simpa using htrue
    exact ih (by omega) (by omega) hbelow fun i hi hmid => hmono _ i hmid hi hholds
  | case3 low high hinside hfalse ih =>
    rw [htest _ (by omega)] at hfalse
    have hfails : ¬ holds ((low + high) / 2) := by simpa using hfalse
    refine ih (by omega) hhigh ?_ habove
    intro i hi hholds
    exact hfails (hmono i _ (by omega) (by omega) hholds)
  | case4 low high houtside =>
    obtain rfl : low = high := by omega
    refine ⟨low, hhigh, rfl, ?_⟩
    intro i hi
    exact ⟨fun hholds => Nat.not_lt.mp fun hlt => hbelow i hlt hholds, habove i hi⟩

/-- A sorted list begins with the items whose keys are at most `x`. -/
theorem lt_countP_iff {β κ : Type} [LinearOrder κ] {key : β → κ} {items : List β}
    (hsorted : items.Pairwise fun a b => key a ≤ key b) (x : κ) {i : Nat} (hi : i < items.length) :
    i < items.countP (fun b => key b ≤ x) ↔ key items[i] ≤ x := by
  induction items generalizing i with
  | nil => cases hi
  | cons b rest ih =>
    obtain ⟨hleast, hrest⟩ := List.pairwise_cons.mp hsorted
    by_cases hb : key b ≤ x
    · rw [List.countP_cons_of_pos (by simpa using hb)]
      cases i with
      | zero => simp [hb]
      | succ i => simpa using ih hrest (Nat.lt_of_succ_lt_succ hi)
    · -- Once an item is beyond `x`, so are all items behind it.
      have hbeyond : ∀ c ∈ b :: rest, ¬ key c ≤ x := by
        intro c hc
        rcases List.mem_cons.mp hc with rfl | hc
        · exact hb
        · exact fun hle => hb ((hleast c hc).trans hle)
      have hcount : (b :: rest).countP (fun b => key b ≤ x) = 0 :=
        List.countP_eq_zero.mpr fun c hc => by simpa using hbeyond c hc
      simp only [hcount, Nat.not_lt_zero, hbeyond _ (List.getElem_mem hi)]

/-- Halving a sorted list counts the items that `x` does not precede. -/
theorem upperBound_eq_countP {τ κ : Type} [Chronology τ] [LinearOrder κ] {key : τ → κ}
    {items : List τ} (hsorted : items.Pairwise fun a b => key a ≤ key b) {x : τ}
    (hbefore : ∀ a ∈ items, before x a = .ok (decide (key x < key a))) :
    upperBound x items = .ok (items.countP fun a => key a ≤ key x) := by
  have hcount := List.countP_le_length (p := fun a => decide (key a ≤ key x)) (l := items)
  have htest : ∀ i < items.length, atPlaces items.toArray (before x) i
      = .ok (decide (items.countP (fun a => key a ≤ key x) ≤ i)) := by
    intro i hi
    have hplace : items.toArray[i]? = some items[i] := by simp [hi]
    have hbehind : key x < key items[i] ↔ items.countP (fun a => key a ≤ key x) ≤ i := by
      rw [← not_le, ← lt_countP_iff hsorted (key x) hi, not_lt]
    simp only [atPlaces, hplace, hbefore _ (List.getElem_mem hi), hbehind]
  obtain ⟨k, hk, hfound, hfirst⟩ := bisect_first htest (fun i j hij _ hi => hi.trans hij) 0
    items.length (Nat.zero_le _) le_rfl (fun i hi => absurd hi (Nat.not_lt_zero i))
    (fun i hi hbehind => by omega)
  have hsame : k = items.countP fun a => key a ≤ key x := by
    have hat := hfirst k
    have hbelow := hfirst (items.countP fun a => key a ≤ key x)
    omega
  rw [upperBound, hfound, hsame]

/-! ## Sorting -/

section OrderedBy

variable {τ κ : Type} [Chronology τ] [LinearOrder κ] {key : τ → κ} {items : List τ}

/-- The items of a list are compared by their keys. -/
def OrderedBy (key : τ → κ) (items : List τ) : Prop :=
  ∀ a ∈ items, ∀ b ∈ items, before a b = .ok (decide (key a < key b))

theorem OrderedOn.orderedBy {line : Set τ} (h : OrderedOn key line)
    (hitems : ∀ a ∈ items, a ∈ line) : OrderedBy key items :=
  fun a ha b hb => h.before_eq a (hitems a ha) b (hitems b hb)

/-- Items on one line are sorted by their keys. -/
theorem sort_aligned (hordered : OrderedBy key items) (haligned : aligned items = true) :
    ∃ sorted, sort items = .ok sorted ∧ sorted.Perm items
      ∧ sorted.Pairwise fun a b => key a ≤ key b := by
  refine ⟨items.mergeSort mayStandBefore, if_pos haligned, List.mergeSort_perm _ _, ?_⟩
  have hkeys : (items.mergeSort mayStandBefore).map key
      = (items.map key).mergeSort fun x y => decide (x ≤ y) := by
    refine List.map_mergeSort ?_
    intro a ha b hb
    simp only [mayStandBefore, hordered b hb a ha, ← decide_not, not_lt]
  have hsorted : ((items.map key).mergeSort fun x y => decide (x ≤ y)).Pairwise (· ≤ ·) := by
    refine (List.pairwise_mergeSort ?_ ?_ _).imp of_decide_eq_true
    · simpa using fun x y z => le_trans
    · simpa using le_total
  exact List.pairwise_map.mp (hkeys ▸ hsorted)

/-- Two or more instants that are ordered by different keys lie on one line. -/
class OrderAligns (τ : Type) [Chronology τ] : Prop where
  aligned_of_ordered : ∀ {κ : Type} [LinearOrder κ] {key : τ → κ} {instants : List τ},
    OrderedBy key instants → (instants.map key).Nodup → 2 ≤ instants.length →
      aligned instants = true

theorem Runs.sort_singleton (x : τ) : Runs.sort [x] = .ok [x] := by
  simp [Runs.sort, addRuns, lengthenedRun, firstRun, leastLength, Pending.add, mergeAll, bind,
    Except.bind, pure, Except.pure]

variable {μ : Type} {sample others : List (Stamped τ μ)}

theorem OrderedBy.stamped (h : OrderedBy key (sample.map (·.time))) :
    OrderedBy (fun entry => key entry.time) sample :=
  fun _ ha _ hb => h _ (List.mem_map_of_mem ha) _ (List.mem_map_of_mem hb)

variable [OrderAligns τ]

/-- A sample at instants with different keys is sorted strictly. -/
theorem sort_distinct (hordered : OrderedBy key (sample.map (·.time)))
    (hdistinct : (sample.map fun entry => key entry.time).Nodup) :
    ∃ entries, sort sample = .ok entries ∧ entries.Perm sample
      ∧ entries.Pairwise fun a b => key a.time < key b.time := by
  match sample with
  | [] =>
    refine ⟨[], ?_, .nil, .nil⟩
    rw [sort, List.mergeSort_nil]
    exact ite_self _
  | [entry] =>
    refine ⟨[entry], ?_, .refl _, List.pairwise_singleton _ _⟩
    rw [sort, Runs.sort_singleton, List.mergeSort_singleton, ite_self]
  | a :: b :: rest =>
    have haligned : aligned ((a :: b :: rest).map (·.time)) = true :=
      OrderAligns.aligned_of_ordered hordered (by rwa [List.map_map]) (by simp)
    obtain ⟨entries, hsort, hperm, hsorted⟩ := sort_aligned hordered.stamped haligned
    have hkeys := List.pairwise_map.mp ((hperm.map _).nodup_iff.mpr hdistinct)
    exact ⟨entries, hsort, hperm, (hsorted.and hkeys).imp fun ⟨hle, hne⟩ => lt_of_le_of_ne hle hne⟩

/-- The order in which a sample at instants with different keys is given does not matter. -/
theorem sort_perm (hordered : OrderedBy key (sample.map (·.time)))
    (hdistinct : (sample.map fun entry => key entry.time).Nodup) (hperm : others.Perm sample) :
    sort others = sort sample := by
  have hothers : OrderedBy key (others.map (·.time)) := fun a ha b hb =>
    hordered a ((hperm.map _).mem_iff.mp ha) b ((hperm.map _).mem_iff.mp hb)
  obtain ⟨entries, hsort, hentries, hstrict⟩ := sort_distinct hordered hdistinct
  obtain ⟨entries', hsort', hentries', hstrict'⟩ :=
    sort_distinct hothers ((hperm.map _).nodup_iff.mpr hdistinct)
  have hsame : entries' = entries :=
    (hentries'.trans (hperm.trans hentries.symm)).eq_of_pairwise
      (fun _ _ _ _ hlt hgt => absurd hgt hlt.asymm) hstrict' hstrict
  rw [hsort, hsort', hsame]

end OrderedBy

/-! ## Tables -/

section Ordered

variable {τ μ : Type} [LinearOrder τ] [Chronology τ] [Ordered τ]

theorem orderedOn_univ : OrderedOn (id : τ → τ) Set.univ where
  before_eq a _ b _ := Ordered.before_eq a b
  after_eq a _ b _ := Ordered.after_eq a b
  aligned_eq instants _ := Ordered.aligned_eq instants

/-- A sample is sorted by its instants. -/
theorem sort_ordered (sample : List (Stamped τ μ)) :
    ∃ entries, sort sample = .ok entries ∧ entries.Perm sample
      ∧ entries.Pairwise fun a b => a.time ≤ b.time :=
  sort_aligned (fun a _ b _ => Ordered.before_eq a.time b.time)
    (Ordered.aligned_eq (sample.map (·.time)))

end Ordered

end AngularMotion.Chronology
