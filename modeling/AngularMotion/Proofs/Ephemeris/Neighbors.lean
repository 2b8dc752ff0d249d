import AngularMotion.Proofs.Ephemeris.Order

/-!
# Where windows lie

On a line of instants, repeated ones among them, a table that was built refuses exactly the queries
outside its range (`neighbors_surround`). The window of any other query holds the last entry that is
not after it, with half of the other points before that entry as far as the ends of the table allow
(`surrounds_window`). Later queries do not have earlier windows.
-/

namespace AngularMotion.Ephemeris

open Chronology

variable {τ μ κ : Type} [LinearOrder κ] {key : τ → κ}

/-- A window from a place on that surrounds the last entry that is not after an instant. -/
structure Surrounds (key : τ → κ) (e : Ephemeris τ μ) (time : τ) (start last : Nat) : Prop where
  fits : start + e.points ≤ e.entries.length
  last_iff : ∀ i (hi : i < e.entries.length), key e.entries[i].time ≤ key time ↔ i ≤ last
  holds_last : start ≤ last ∧ last < start + e.points
  holds_next : 2 ≤ e.points → key time < key e.last → last + 1 < start + e.points
  few_before : last - start < (e.points - 1) / 2 → start = 0
  many_before : (e.points - 1) / 2 < last - start → start + e.points = e.entries.length

variable {e : Ephemeris τ μ} {time : τ}

/-- Not all entries are passed before the end of the range. -/
theorem passed_lt_length (hsorted : e.entries.Pairwise fun a b => key a.time ≤ key b.time)
    (hlast : key time < key e.last) : e.passed key time < e.entries.length := by
  have hlength := List.length_pos_iff.mpr e.entries_ne_nil
  have hbehind : ¬ e.entries.length - 1 < e.passed key time := by
    rw [lt_passed_iff hsorted (Nat.sub_one_lt hlength.ne'),
      ← List.getLast_eq_getElem e.entries_ne_nil]
    exact not_le.mpr hlast
  omega

/-- The window of a query surrounds the entry that was passed last. -/
theorem surrounds_window (hsorted : e.entries.Pairwise fun a b => key a.time ≤ key b.time)
    (hfirst : key e.first ≤ key time) :
    e.Surrounds key time (e.windowStart (e.passed key time)) (e.passed key time - 1) := by
  have hpassed := passed_pos hsorted hfirst
  have hle : e.passed key time ≤ e.entries.length := List.countP_le_length
  have hpoints := e.points_pos
  have hfits := windowStart_add_points_le e (e.passed key time)
  have hstart : e.windowStart (e.passed key time)
    = min (e.passed key time - 1 - (e.points - 1) / 2) (e.entries.length - e.points) := rfl
  constructor
  case fits => exact hfits
  case last_iff =>
    intro i hi
    rw [← lt_passed_iff hsorted hi]
    omega
  case holds_last => omega
  case holds_next =>
    intro htwo hlast
    have hnext := passed_lt_length hsorted hlast
    omega
  case few_before => omega
  case many_before => omega

theorem windowStart_mono (e : Ephemeris τ μ) {m n : Nat} (h : m ≤ n) :
    e.windowStart m ≤ e.windowStart n := by
  rw [windowStart, windowStart]
  omega

variable [Chronology τ] {line : Set τ} {trust : Trust} {points : Count}
  {sample : List (Stamped τ μ)}

/-- A table on a line of instants holds its sample in the order of time. It refuses exactly the
queries outside its range, and the windows of the others surround them, one not before another for a
later query. -/
theorem neighbors_surround (hline : OrderedOn key line)
    (hsample : ∀ entry ∈ sample, entry.time ∈ line) (hbuilt : build trust points sample = .ok e) :
    e.entries.Perm sample ∧ (e.entries.Pairwise fun a b => key a.time ≤ key b.time)
      ∧ (e.points : Int) = points.value
      ∧ (∀ time ∈ line, ∀ fault, e.neighbors time = .error fault ↔
          (key time < key e.first ∨ key e.last < key time)
            ∧ fault = .outsideRange time e.first e.last)
      ∧ ∃ start : τ → Nat,
        (∀ time ∈ line, key e.first ≤ key time → key time ≤ key e.last →
          e.neighbors time = .ok ((e.entries.drop (start time)).take e.points)
            ∧ ∃ last, e.Surrounds key time (start time) last)
          ∧ ∀ s ∈ line, ∀ t ∈ line, key s ≤ key t → start s ≤ start t := by
  have hinstants : ∀ t ∈ sample.map (·.time), t ∈ line := by
    intro t ht
    obtain ⟨entry, hentry, rfl⟩ := List.mem_map.mp ht
    exact hsample entry hentry
  obtain ⟨entries, hsort, hperm, hsorted⟩ :=
    sort_aligned (hline.orderedBy hinstants).stamped (hline.aligned_eq _ hinstants)
  obtain ⟨hpoints, rfl⟩ := eq_of_build hsort hbuilt
  have hentries : ∀ entry ∈ e.entries, entry.time ∈ line :=
    fun entry hentry => hsample entry (hperm.mem_iff.mp hentry)
  refine ⟨hperm, hsorted, hpoints, ?_, fun time => e.windowStart (e.passed key time), ?_, ?_⟩
  · intro time htime fault
    by_cases houtside : key time < key e.first ∨ key e.last < key time
    · simp [neighbors_outside_line hline hentries htime houtside, houtside, eq_comm]
    · obtain ⟨hfirst, hlast⟩ := not_or.mp houtside
      simp [neighbors_inside_line hline hentries hsorted htime (not_lt.mp hfirst)
        (not_lt.mp hlast), houtside]
  · intro time htime hfirst hlast
    exact ⟨neighbors_inside_line hline hentries hsorted htime hfirst hlast, _,
      surrounds_window hsorted hfirst⟩
  · intro s _ t _ hle
    exact windowStart_mono e (passed_mono key e hle)

/-! ## Days -/

/-- Days are compared by their numbers. -/
theorem orderedOn_days : OrderedOn dayNumber {t | ∃ d, t = .day d} where
  before_eq := by
    rintro _ ⟨a, rfl⟩ _ ⟨b, rfl⟩
    have hless : (compare a.number b.number == .lt) = decide (a.number < b.number) := by
      rw [Bool.eq_iff_iff, beq_iff_eq, Nat.compare_eq_lt, decide_eq_true_iff]
    exact congrArg Except.ok hless
  after_eq := by
    rintro _ ⟨a, rfl⟩ _ ⟨b, rfl⟩
    have hgreater : (compare a.number b.number == .gt) = decide (b.number < a.number) := by
      rw [Bool.eq_iff_iff, beq_iff_eq, Nat.compare_eq_gt, decide_eq_true_iff]
    exact congrArg Except.ok hgreater
  aligned_eq := by
    intro instants hdays
    cases instants with
    | nil => rfl
    | cons t rest =>
      obtain ⟨⟨d, rfl⟩, hrest⟩ := List.forall_mem_cons.mp hdays
      have hlines : rest.all (·.line? = (Instant.day d).line?) = true := by
        refine List.all_eq_true.mpr fun t ht => ?_
        obtain ⟨other, rfl⟩ := hrest t ht
        exact decide_eq_true rfl
      exact Bool.and_eq_true_iff.mpr ⟨rfl, hlines⟩

/-- Four days, one of them given twice. -/
def fourDays : List (Stamped Instant (Coordinates Scalar)) :=
  threeDays ++ threeDays.drop 2

theorem mem_fourDays : ∀ entry ∈ fourDays, entry.time ∈ {t | ∃ d, t = Instant.day d} := by
  simp [fourDays, threeDays]

theorem build_fourDays :
    ∃ e, build .rotation (.number 2) fourDays = .ok e ∧ e.points = 2
      ∧ e.entries.map (fun entry => dayNumber entry.time) = [1, 2, 2, 3] := by
  have hinstants : ∀ t ∈ fourDays.map (·.time), t ∈ {t | ∃ d, t = Instant.day d} :=
    List.forall_mem_map.mpr mem_fourDays
  obtain ⟨entries, hsort, hperm, hsorted⟩ := sort_aligned
    (orderedOn_days.orderedBy hinstants).stamped (orderedOn_days.aligned_eq _ hinstants)
  obtain ⟨e, hbuilt⟩ : ∃ e, build .rotation (.number 2) fourDays = .ok e := by
    rw [exists_build_of_sort hsort, hperm.length_eq]
    decide
  obtain ⟨hpoints, rfl⟩ := eq_of_build hsort hbuilt
  refine ⟨e, hbuilt, Int.ofNat.inj hpoints, ?_⟩
  have hnumbers : (fourDays.map fun entry => dayNumber entry.time).Perm [1, 2, 2, 3] := by decide
  exact ((hperm.map _).trans hnumbers).eq_of_pairwise
    (fun _ _ _ _ hle hge => Nat.le_antisymm hle hge) (List.pairwise_map.mpr hsorted) (by decide)

/-- The window of a day that is given twice begins with the second of the two. -/
theorem fourDays_surround :
    ∃ e, build .rotation (.number 2) fourDays = .ok e
      ∧ (∃ window, e.neighbors (.day ⟨2, by decide⟩) = .ok window
        ∧ window.map (fun entry => dayNumber entry.time) = [2, 3])
      ∧ ∃ fault, e.neighbors (.day ⟨4, by decide⟩) = .error fault := by
  obtain ⟨e, hbuilt, hsize, hnumbers⟩ := build_fourDays
  obtain ⟨_, _, _, hrefused, start, hwindows, _⟩ :=
    neighbors_surround orderedOn_days mem_fourDays hbuilt
  have hlength : e.entries.length = 4 := by
    simpa using congrArg List.length hnumbers
  have hnumber : ∀ i (hi : i < e.entries.length),
      dayNumber e.entries[i].time = [1, 2, 2, 3].getD i 0 := by
    intro i hi
    simp [← hnumbers, hi]
  have hfirst : dayNumber e.first = 1 := by
    rw [first, List.head_eq_getElem, hnumber]
    rfl
  have hlast : dayNumber e.last = 3 := by
    rw [last, List.getLast_eq_getElem, hnumber, hlength]
    rfl
  refine ⟨e, hbuilt, ?_, _, (hrefused _ ⟨_, rfl⟩ _).mpr ⟨.inr ?_, rfl⟩⟩
  · obtain ⟨hwindow, l, hsurrounds⟩ := hwindows (.day ⟨2, by decide⟩) ⟨_, rfl⟩
      (by rw [hfirst]; decide) (by rw [hlast]; decide)
    have hl : l = 2 := by
      have htwo := hsurrounds.last_iff 2 (by omega)
      have hthree := hsurrounds.last_iff 3 (by omega)
      rw [hnumber] at htwo hthree
      simp [dayNumber] at htwo hthree
      omega
    have hstart : start (.day ⟨2, by decide⟩) = 2 := by
      have hfits := hsurrounds.fits
      have hholds := hsurrounds.holds_last
      have hmany := hsurrounds.many_before
      omega
    refine ⟨_, hwindow, ?_⟩
    rw [hstart, hsize, List.map_take, List.map_drop, hnumbers]
    rfl
  · rw [hlast]
    decide

end AngularMotion.Ephemeris
