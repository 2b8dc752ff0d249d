import AngularMotion.Proofs.Ephemeris.Search
import Mathlib.Order.Bounds.Basic

/-!
# Tables and their windows

A table that was built holds its sample in the order of time (`tabulates_of_build`). A query inside
the range of the table gets the window of its neighbours (`neighbors_inside`): as many consecutive
entries as were asked for (`length_window`), with the last entry not after the query
(`passed_mem_window`) and, if windows have two points, the entry behind it (`next_mem_window`).

The same is said of instants on a line, which are compared by their keys (`neighbors_inside_line`,
`neighbors_outside_line`).
-/

namespace AngularMotion.Ephemeris

open Chronology

/-! ## Windows -/

section Definitions

variable {τ μ : Type}

/-- The window of a query that comes after `passed` entries. -/
def window (e : Ephemeris τ μ) (passed : Nat) : List (Stamped τ μ) :=
  (e.entries.drop (e.windowStart passed)).take e.points

/-- How many entries of a table are not after an instant, by the keys of the instants. -/
def passed {κ : Type} [LE κ] [DecidableLE κ] (key : τ → κ) (e : Ephemeris τ μ) (time : τ) : Nat :=
  e.entries.countP fun entry => key entry.time ≤ key time

/-- How many entries of a table are not after an instant. -/
structure Passes [LE τ] (e : Ephemeris τ μ) (time : τ) (passed : Nat) : Prop where
  le : passed ≤ e.entries.length
  lt_iff : ∀ i (hi : i < e.entries.length), i < passed ↔ e.entries[i].time ≤ time

end Definitions

variable {τ μ : Type} {e : Ephemeris τ μ} {passed : Nat}

variable (e passed) in
theorem windowStart_add_points_le : e.windowStart passed + e.points ≤ e.entries.length := by
  have := e.points_le
  rw [windowStart]
  omega

variable (e passed) in
theorem length_window : (e.window passed).length = e.points := by
  have := windowStart_add_points_le e passed
  rw [window, List.length_take, List.length_drop]
  omega

theorem window_sublist : (e.window passed).Sublist e.entries :=
  (List.take_sublist _ _).trans (List.drop_sublist _ _)

theorem mem_window {i : Nat} (hlow : e.windowStart passed ≤ i)
    (hhigh : i < e.windowStart passed + e.points) (hi : i < e.entries.length) :
    e.entries[i] ∈ e.window passed := by
  refine List.mem_iff_getElem.mpr ⟨i - e.windowStart passed, ?_, ?_⟩
  · rw [length_window]
    omega
  · simp only [window, List.getElem_take, List.getElem_drop, Nat.add_sub_cancel' hlow]

/-- The window holds the last entry that was passed. -/
theorem passed_mem_window {i : Nat} (hi : i < e.entries.length) :
    e.entries[i] ∈ e.window (i + 1) := by
  have := e.points_pos
  have := e.points_le
  refine mem_window ?_ ?_ hi <;> rw [windowStart] <;> omega

/-- A window of two or more points holds the entry behind those that were passed. -/
theorem next_mem_window (hpoints : 2 ≤ e.points) (hpassed : 0 < passed)
    (h : passed < e.entries.length) : e.entries[passed] ∈ e.window passed := by
  refine mem_window ?_ ?_ h <;> rw [windowStart] <;> omega

/-! ## Keys -/

section Keys

variable {κ : Type} [LinearOrder κ] {key : τ → κ} {time : τ}

theorem key_first_le (hsorted : e.entries.Pairwise fun a b => key a.time ≤ key b.time) {i : Nat}
    (hi : i < e.entries.length) : key e.first ≤ key e.entries[i].time := by
  rw [first, List.head_eq_getElem]
  rcases Nat.eq_zero_or_pos i with rfl | hpositive
  · exact le_rfl
  · exact List.pairwise_iff_getElem.mp hsorted 0 i _ hi hpositive

theorem key_le_last (hsorted : e.entries.Pairwise fun a b => key a.time ≤ key b.time) {i : Nat}
    (hi : i < e.entries.length) : key e.entries[i].time ≤ key e.last := by
  rw [last, List.getLast_eq_getElem]
  rcases Nat.eq_or_lt_of_le (Nat.le_sub_one_of_lt hi) with rfl | hearlier
  · exact le_rfl
  · exact List.pairwise_iff_getElem.mp hsorted i _ hi _ hearlier

variable (key) in
/-- Later queries pass more entries. -/
theorem passed_mono (e : Ephemeris τ μ) {s t : τ} (h : key s ≤ key t) :
    e.passed key s ≤ e.passed key t := by
  refine List.countP_mono_left fun entry _ hpassed => ?_
  exact decide_eq_true ((of_decide_eq_true hpassed).trans h)

theorem lt_passed_iff (hsorted : e.entries.Pairwise fun a b => key a.time ≤ key b.time) {i : Nat}
    (hi : i < e.entries.length) : i < e.passed key time ↔ key e.entries[i].time ≤ key time :=
  lt_countP_iff hsorted (key time) hi

theorem passed_pos (hsorted : e.entries.Pairwise fun a b => key a.time ≤ key b.time)
    (hfirst : key e.first ≤ key time) : 0 < e.passed key time := by
  rw [lt_passed_iff hsorted (List.length_pos_iff.mpr e.entries_ne_nil), ← List.head_eq_getElem]
  exact hfirst

variable [Chronology τ] {line : Set τ}

/-- A query outside the range is refused. -/
theorem neighbors_outside_line (hline : OrderedOn key line)
    (hentries : ∀ entry ∈ e.entries, entry.time ∈ line) (htime : time ∈ line)
    (h : key time < key e.first ∨ key e.last < key time) :
    e.neighbors time = .error (.outsideRange time e.first e.last) := by
  have hhead : e.first ∈ line := hentries _ (List.head_mem _)
  have hend : e.last ∈ line := hentries _ (List.getLast_mem _)
  rw [neighbors, hline.before_eq _ htime _ hhead, hline.after_eq _ htime _ hend]
  by_cases hbefore : key time < key e.first
  · rw [decide_eq_true hbefore]
    rfl
  · rw [decide_eq_false hbefore, decide_eq_true (h.resolve_left hbefore)]
    rfl

/-- A query inside the range gets the window behind the entries that are not after it. -/
theorem neighbors_inside_line (hline : OrderedOn key line)
    (hentries : ∀ entry ∈ e.entries, entry.time ∈ line)
    (hsorted : e.entries.Pairwise fun a b => key a.time ≤ key b.time) (htime : time ∈ line)
    (hfirst : key e.first ≤ key time) (hlast : key time ≤ key e.last) :
    e.neighbors time = .ok (e.window (e.passed key time)) := by
  have hinstants : (e.entries.map (·.time)).Pairwise fun a b => key a ≤ key b :=
    List.pairwise_map.mpr hsorted
  have hbefore : ∀ t ∈ e.entries.map (·.time), before time t = .ok (decide (key time < key t)) := by
    intro t ht
    obtain ⟨entry, hentry, rfl⟩ := List.mem_map.mp ht
    exact hline.before_eq _ htime _ (hentries entry hentry)
  have hfound := upperBound_eq_countP hinstants hbefore
  rw [List.countP_map] at hfound
  have hhead : e.first ∈ line := hentries _ (List.head_mem _)
  have hend : e.last ∈ line := hentries _ (List.getLast_mem _)
  rw [neighbors, hline.before_eq _ htime _ hhead, hline.after_eq _ htime _ hend,
    decide_eq_false (not_lt.mpr hfirst), decide_eq_false (not_lt.mpr hlast), hfound]
  rfl

end Keys

/-! ## Tables -/

/-- What is known of a table from the sample it was built of. -/
structure Tabulates [LE τ] (e : Ephemeris τ μ) (trust : Trust) (points : Count)
    (sample : List (Stamped τ μ)) : Prop where
  trust_eq : e.trust = trust
  points_eq : (e.points : Int) = points.value
  minimum_le : trust.minimumPoints ≤ e.points
  perm : e.entries.Perm sample
  sorted : e.entries.Pairwise fun a b => a.time ≤ b.time

section Ordered

variable [LinearOrder τ] [Chronology τ] [Ordered τ] {trust : Trust} {points : Count}
  {sample : List (Stamped τ μ)}

omit [LinearOrder τ] [Ordered τ] in
/-- A table of a sorted sample is refused for one of two reasons, and built otherwise. -/
theorem build_of_sort {entries : List (Stamped τ μ)} (trust : Trust) (points : Count)
    (hsort : sort sample = .ok entries) :
    points.value < trust.minimumPoints
        ∧ build trust points sample = .error (.windowTooSmall trust points)
      ∨ trust.minimumPoints ≤ points.value ∧ (entries.length : Int) < points.value
        ∧ build trust points sample = .error (.tableTooSmall entries.length points)
      ∨ trust.minimumPoints ≤ points.value ∧ points.value ≤ entries.length
        ∧ ∃ e, build trust points sample = .ok e ∧ e.trust = trust
          ∧ (e.points : Int) = points.value ∧ e.entries = entries := by
  have hpositive := trust.minimumPoints_pos
  rw [build, hsort]
  change _ ∧ (if _ : _ then _ else _) = _ ∨ _
  by_cases hsmall : points.value < trust.minimumPoints
  · exact .inl ⟨hsmall, dif_pos hsmall⟩
  · by_cases hshort : (entries.length : Int) < points.value
    · refine .inr (.inl ⟨Int.not_lt.mp hsmall, hshort, ?_⟩)
      exact (dif_neg hsmall).trans (dif_pos hshort)
    · refine .inr (.inr ⟨Int.not_lt.mp hsmall, Int.not_lt.mp hshort, _,
        (dif_neg hsmall).trans (dif_neg hshort), rfl, ?_, rfl⟩)
      exact Int.toNat_of_nonneg (by omega)

omit [LinearOrder τ] [Ordered τ] in
theorem exists_build_of_sort {entries : List (Stamped τ μ)} (hsort : sort sample = .ok entries) :
    (∃ e, build trust points sample = .ok e)
      ↔ trust.minimumPoints ≤ points.value ∧ points.value ≤ entries.length := by
  rcases build_of_sort trust points hsort with
    ⟨hsmall, hfault⟩ | ⟨_, hshort, hfault⟩ | ⟨henough, hlong, e, hbuilt, _⟩
  · simp [hfault, not_le.mpr hsmall]
  · simp [hfault, not_le.mpr hshort]
  · simp [hbuilt, henough, hlong]

omit [LinearOrder τ] [Ordered τ] in
/-- A table that is built has the sorted sample as its entries. -/
theorem eq_of_build {entries : List (Stamped τ μ)} (hsort : sort sample = .ok entries)
    (hbuilt : build trust points sample = .ok e) :
    (e.points : Int) = points.value ∧ e.entries = entries := by
  rcases build_of_sort trust points hsort with
    ⟨_, hfault⟩ | ⟨_, _, hfault⟩ | ⟨_, _, built, hsame, _, hpoints, hentries⟩
  · rw [hfault] at hbuilt
    cases hbuilt
  · rw [hfault] at hbuilt
    cases hbuilt
  · rw [hsame] at hbuilt
    cases hbuilt
    exact ⟨hpoints, hentries⟩

/-- A table is refused for one of two reasons, and built otherwise. -/
theorem build_cases (trust : Trust) (points : Count) (sample : List (Stamped τ μ)) :
    points.value < trust.minimumPoints
        ∧ build trust points sample = .error (.windowTooSmall trust points)
      ∨ trust.minimumPoints ≤ points.value ∧ (sample.length : Int) < points.value
        ∧ build trust points sample = .error (.tableTooSmall sample.length points)
      ∨ trust.minimumPoints ≤ points.value ∧ points.value ≤ sample.length
        ∧ ∃ e, build trust points sample = .ok e ∧ e.Tabulates trust points sample := by
  obtain ⟨entries, hsort, hperm, hsorted⟩ := sort_ordered sample
  have hcases := build_of_sort trust points hsort
  rw [hperm.length_eq] at hcases
  rcases hcases with hsmall | hshort | ⟨henough, hlong, e, hbuilt, htrust, hpoints, rfl⟩
  · exact .inl hsmall
  · exact .inr (.inl hshort)
  · exact .inr (.inr ⟨henough, hlong, e, hbuilt, htrust, hpoints, by omega, hperm, hsorted⟩)

theorem tabulates_of_build (h : build trust points sample = .ok e) :
    e.Tabulates trust points sample := by
  rcases build_cases trust points sample with
    ⟨_, hfault⟩ | ⟨_, _, hfault⟩ | ⟨_, _, built, hbuilt, htable⟩
  · rw [hfault] at h
    cases h
  · rw [hfault] at h
    cases h
  · rw [hbuilt] at h
    cases h
    exact htable

omit [Chronology τ] [Ordered τ] in
theorem first_le (hsorted : e.entries.Pairwise fun a b => a.time ≤ b.time) {i : Nat}
    (hi : i < e.entries.length) : e.first ≤ e.entries[i].time :=
  key_first_le (show e.entries.Pairwise fun a b => id a.time ≤ id b.time from hsorted) hi

omit [Chronology τ] [Ordered τ] in
theorem le_last (hsorted : e.entries.Pairwise fun a b => a.time ≤ b.time) {i : Nat}
    (hi : i < e.entries.length) : e.entries[i].time ≤ e.last :=
  key_le_last (show e.entries.Pairwise fun a b => id a.time ≤ id b.time from hsorted) hi

omit [Chronology τ] [Ordered τ] in
/-- The table begins with the earliest instant of the sample. -/
theorem Tabulates.isLeast_first (h : e.Tabulates trust points sample) :
    IsLeast {t | t ∈ sample.map (·.time)} e.first := by
  refine ⟨List.mem_map_of_mem (h.perm.mem_iff.mp (List.head_mem e.entries_ne_nil)), ?_⟩
  intro t ht
  obtain ⟨point, hpoint, rfl⟩ := List.mem_map.mp ht
  obtain ⟨i, hi, rfl⟩ := List.getElem_of_mem (h.perm.mem_iff.mpr hpoint)
  exact first_le h.sorted hi

omit [Chronology τ] [Ordered τ] in
/-- The table ends with the latest instant of the sample. -/
theorem Tabulates.isGreatest_last (h : e.Tabulates trust points sample) :
    IsGreatest {t | t ∈ sample.map (·.time)} e.last := by
  refine ⟨List.mem_map_of_mem (h.perm.mem_iff.mp (List.getLast_mem e.entries_ne_nil)), ?_⟩
  intro t ht
  obtain ⟨point, hpoint, rfl⟩ := List.mem_map.mp ht
  obtain ⟨i, hi, rfl⟩ := List.getElem_of_mem (h.perm.mem_iff.mpr hpoint)
  exact le_last h.sorted hi

/-! ## Queries -/

theorem neighbors_outside {time : τ} (h : time < e.first ∨ e.last < time) :
    e.neighbors time = .error (.outsideRange time e.first e.last) :=
  neighbors_outside_line orderedOn_univ (fun _ _ => trivial) trivial h

/-- A query inside the range gets the window behind the entries that are not after it. -/
theorem neighbors_inside (hsorted : e.entries.Pairwise fun a b => a.time ≤ b.time) {time : τ}
    (hfirst : e.first ≤ time) (hlast : time ≤ e.last) :
    ∃ passed, 0 < passed ∧ e.Passes time passed ∧ e.neighbors time = .ok (e.window passed) := by
  have hkeys : e.entries.Pairwise fun a b => id a.time ≤ id b.time := hsorted
  exact ⟨e.passed id time, passed_pos hkeys hfirst,
    ⟨List.countP_le_length, fun i hi => lt_passed_iff hkeys hi⟩,
    neighbors_inside_line orderedOn_univ (fun _ _ => trivial) hkeys trivial hfirst hlast⟩

/-- Between an entry and the next one, the entries up to the first of them were passed. -/
theorem neighbors_between (hsorted : e.entries.Pairwise fun a b => a.time ≤ b.time) {i : Nat}
    (hi : i + 1 < e.entries.length) {time : τ} (hle : e.entries[i].time ≤ time)
    (hlt : time < e.entries[i + 1].time) : e.neighbors time = .ok (e.window (i + 1)) := by
  obtain ⟨passed, _, hpassed, hwindow⟩ := neighbors_inside hsorted
    ((first_le hsorted _).trans hle) (hlt.le.trans (le_last hsorted _))
  have hlow := (hpassed.lt_iff i (by omega)).mpr hle
  have hhigh := mt (hpassed.lt_iff (i + 1) hi).mp (not_le.mpr hlt)
  obtain rfl : passed = i + 1 := by omega
  exact hwindow

end Ordered

end AngularMotion.Ephemeris
