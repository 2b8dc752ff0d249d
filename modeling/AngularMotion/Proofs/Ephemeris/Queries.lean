import AngularMotion.Proofs.Ephemeris.Window
import AngularMotion.Proofs.Interpolation.Reproduction

/-!
# Queries of a table

A table of rotations over the reals answers every query in its range, and no other
(`build_answers`). Next to an entry two pieces of playback meet: both windows hold the entry, and
both reproduce it (`windows_meet`).
-/

namespace AngularMotion.Ephemeris

open Chronology Interpolation

instance : Ordered ℝ where
  before_eq _ _ := rfl
  after_eq _ _ := rfl
  aligned_eq _ := rfl

variable {ε : ℝ} {trust : Trust} {points : Count} {sample : List (Stamped ℝ (Coordinates ℝ))}
  {e : Ephemeris ℝ (Coordinates ℝ)}

/-! ## Answers -/

/-- The windows of a table are large enough for what it trusts. -/
theorem not_tooFew_window (h : e.Tabulates trust points sample) (passed : Nat) :
    ¬ TooFew trust (e.window passed) := by
  have hlength := length_window e passed
  have hpositive := e.points_pos
  rintro (hempty | ⟨rfl, hsingle⟩)
  · rw [hempty, List.length_nil] at hlength
    omega
  · have hminimum : 2 ≤ e.points := h.minimum_le
    omega

/-- A query is answered from its window. -/
theorem interpolate_window (h : e.Tabulates trust points sample) {time : ℝ} {passed : Nat}
    (hwindow : e.neighbors time = .ok (e.window passed)) :
    e.interpolate (.exact ε) time
      = Interpolation.interpolate (.exact ε) trust time (e.window passed) := by
  rw [interpolate, hwindow, h.trust_eq]

theorem interpolate_outside {time : ℝ} (h : time < e.first ∨ e.last < time) :
    (e.interpolate (.exact ε) time).result = .error (.outsideRange time e.first e.last) := by
  rw [interpolate, neighbors_outside h]

/-- Inside the range of a table of rotations there is a motion. -/
theorem exists_interpolate (ε : ℝ) (h : e.Tabulates trust points sample)
    (hsample : ∀ point ∈ sample, point.motion.rotation.Normalized) {time : ℝ}
    (hfirst : e.first ≤ time) (hlast : time ≤ e.last) :
    ∃ result, (e.interpolate (.exact ε) time).result = .ok result := by
  obtain ⟨passed, _, _, hwindow⟩ := neighbors_inside h.sorted hfirst hlast
  have hnormalized : ∀ point ∈ e.window passed, point.motion.rotation.Normalized :=
    fun point hpoint => hsample point (h.perm.mem_iff.mp (window_sublist.subset hpoint))
  obtain ⟨_, _, k, _, _, _, hsettle⟩ :=
    settle_reaches ε time trust hnormalized (not_tooFew_window h passed)
  rw [interpolate_window h hwindow]
  exact ⟨_, (interpolate_reaches ε time hsettle).result⟩

/-- A table is built exactly if its windows are large enough for what is trusted and no larger than
the sample. What is built answers exactly the queries from the earliest instant of the sample to the
latest one. -/
theorem build_answers (ε : ℝ) (trust : Trust) (points : Count)
    (hsample : ∀ point ∈ sample, point.motion.rotation.Normalized) :
    (∀ fault, build trust points sample = .error fault ↔
        points.value < trust.minimumPoints ∧ fault = .windowTooSmall trust points
          ∨ trust.minimumPoints ≤ points.value ∧ sample.length < points.value
            ∧ fault = .tableTooSmall sample.length points)
      ∧ ∀ e, build trust points sample = .ok e →
        IsLeast {t | t ∈ sample.map (·.time)} e.first
          ∧ IsGreatest {t | t ∈ sample.map (·.time)} e.last
          ∧ ∀ time,
            (∀ fault, (e.interpolate (.exact ε) time).result = .error fault ↔
                (time < e.first ∨ e.last < time) ∧ fault = .outsideRange time e.first e.last)
              ∧ (e.first ≤ time ∧ time ≤ e.last →
                ∃ result, (e.interpolate (.exact ε) time).result = .ok result) := by
  constructor
  · intro fault
    rcases build_cases trust points sample with
      ⟨hsmall, hfault⟩ | ⟨henough, hshort, hfault⟩ | ⟨henough, hlong, e, hbuilt, _⟩
    · simp [hfault, hsmall, eq_comm]
    · simp [hfault, not_lt.mpr henough, henough, hshort, eq_comm]
    · simp [hbuilt, not_lt.mpr henough, not_lt.mpr hlong]
  · intro e hbuilt
    have htable := tabulates_of_build hbuilt
    refine ⟨htable.isLeast_first, htable.isGreatest_last, ?_⟩
    intro time
    constructor
    · intro fault
      by_cases houtside : time < e.first ∨ e.last < time
      · simp [interpolate_outside houtside, houtside, eq_comm]
      · obtain ⟨hfirst, hlast⟩ := not_or.mp houtside
        obtain ⟨result, hresult⟩ :=
          exists_interpolate ε htable hsample (not_lt.mp hfirst) (not_lt.mp hlast)
        simp [hresult, houtside]
    · rintro ⟨hfirst, hlast⟩
      exact exists_interpolate ε htable hsample hfirst hlast

/-- A table of two turns answers between them, and refuses what is behind them. -/
theorem twoTurns_answers :
    ∃ e, build .rotation (.number 2) twoTurns = .ok e
      ∧ (∃ result, (e.interpolate (.exact 0) (1 / 2)).result = .ok result)
      ∧ (e.interpolate (.exact 0) 2).result = .error (.outsideRange 2 0 1) := by
  obtain ⟨hrefused, hanswers⟩ := build_answers 0 .rotation (.number 2) normalized_twoTurns
  match hbuilt : build .rotation (.number 2) twoTurns with
  | .error fault =>
    rcases (hrefused fault).mp hbuilt with ⟨hsmall, _⟩ | ⟨_, hshort, _⟩
    · exact absurd hsmall (by decide)
    · exact absurd hshort (by simp [twoTurns, Count.value])
  | .ok e =>
    obtain ⟨hleast, hgreatest, hquery⟩ := hanswers e hbuilt
    have hfirst : e.first = 0 :=
      hleast.unique ⟨by simp [twoTurns], by simp [twoTurns, mem_lowerBounds]⟩
    have hlast : e.last = 1 :=
      hgreatest.unique ⟨by simp [twoTurns], by simp [twoTurns, mem_upperBounds]⟩
    rw [hfirst, hlast] at hquery
    exact ⟨e, rfl, (hquery (1 / 2)).2 (by norm_num), ((hquery 2).1 _).mpr (by norm_num)⟩

/-! ## Meeting windows -/

/-- At an entry the window of a query that holds the entry reproduces it. -/
theorem window_reproduces (ε : ℝ) (h : e.Tabulates trust points sample) (hsound : Sound sample)
    {passed : Nat} {entry : Stamped ℝ (Coordinates ℝ)} (hentry : entry ∈ e.window passed) :
    ∃ result, (Interpolation.interpolate (.exact ε) trust entry.time (e.window passed)).result
        = .ok result ∧ result.motion.Reproduces trust entry.motion :=
  exists_reproduction ε ((hsound.perm h.perm).sublist window_sublist) (not_tooFew_window h passed)
    hentry

theorem Tabulates.strict (h : e.Tabulates trust points sample) (hsound : Sound sample) :
    e.entries.Pairwise fun a b => a.time < b.time := by
  have hdistinct := List.pairwise_map.mp (hsound.perm h.perm).nodup
  exact (h.sorted.and hdistinct).imp fun ⟨hle, hne⟩ => lt_of_le_of_ne hle hne

/-- A sample that is in the order of time is its own table. -/
theorem Tabulates.entries_eq (h : e.Tabulates trust points sample) (hsound : Sound sample)
    (hordered : sample.Pairwise fun a b => a.time < b.time) : e.entries = sample :=
  h.perm.eq_of_pairwise (fun _ _ _ _ hlt hgt => absurd hgt hlt.asymm) (h.strict hsound) hordered

/-- Queries before and after an entry, up to its neighbours, get windows that hold the entry, and
either window reproduces the entry at its instant. The table does so too. -/
theorem windows_meet (hsound : Sound sample) (hbuilt : build trust points sample = .ok e)
    (hpoints : 2 ≤ points.value) {j : Nat} (hj : 0 < j) (hlast : j + 1 < e.entries.length)
    {s s' : ℝ} (hs : e.entries[j - 1].time ≤ s ∧ s < e.entries[j].time)
    (hs' : e.entries[j].time ≤ s' ∧ s' < e.entries[j + 1].time) :
    e.entries.Perm sample ∧ (e.entries.Pairwise fun a b => a.time < b.time)
      ∧ (∃ before after, e.neighbors s = .ok before ∧ e.neighbors s' = .ok after
        ∧ ∀ window ∈ [before, after], e.entries[j] ∈ window
          ∧ ∃ result, (Interpolation.interpolate (.exact ε) trust e.entries[j].time window).result
              = .ok result ∧ result.motion.Reproduces trust e.entries[j].motion)
      ∧ ∃ result, (e.interpolate (.exact ε) e.entries[j].time).result = .ok result
        ∧ result.motion.Reproduces trust e.entries[j].motion := by
  have htable := tabulates_of_build hbuilt
  have hstrict := htable.strict hsound
  have hsize : 2 ≤ e.points := by
    have := htable.points_eq
    omega
  obtain ⟨i, rfl⟩ := Nat.exists_eq_add_one_of_ne_zero hj.ne'
  have hbefore := neighbors_between htable.sorted (by omega) hs.1 hs.2
  have hafter := neighbors_between htable.sorted hlast hs'.1 hs'.2
  have hnext : e.entries[i + 1] ∈ e.window (i + 1) :=
    next_mem_window hsize (Nat.succ_pos i) (by omega)
  have hpassed : e.entries[i + 1] ∈ e.window (i + 1 + 1) := passed_mem_window (by omega)
  have hentry := neighbors_between htable.sorted hlast le_rfl
    (List.pairwise_iff_getElem.mp hstrict _ _ _ hlast (Nat.lt_succ_self _))
  refine ⟨htable.perm, hstrict, ⟨_, _, hbefore, hafter, ?_⟩, ?_⟩
  · intro window hwindow
    rcases List.mem_pair.mp hwindow with rfl | rfl
    · exact ⟨hnext, window_reproduces ε htable hsound hnext⟩
    · exact ⟨hpassed, window_reproduces ε htable hsound hpassed⟩
  · rw [interpolate_window htable hentry]
    exact window_reproduces ε htable hsound hpassed

/-- Three turns about the first axis, a second apart. -/
noncomputable def threeTurns : List (Stamped ℝ (Coordinates ℝ)) :=
  [⟨-1, .turned (-1), 0, 0⟩, ⟨0, .turned 0, 0, 0⟩, ⟨1, .turned 1, 0, 0⟩]

theorem sound_threeTurns : Sound threeTurns :=
  ⟨by simp [threeTurns, Quaternion.normalized_turned], by norm_num [threeTurns]⟩

/-- Between three turns, windows of two points meet in the second turn. -/
theorem threeTurns_meet :
    ∃ e, build .rate (.number 2) threeTurns = .ok e
      ∧ ∃ before after, e.neighbors (-1 / 2) = .ok before ∧ e.neighbors (1 / 2) = .ok after
        ∧ ∀ window ∈ [before, after], ∃ result,
          (Interpolation.interpolate (.exact 0) .rate 0 window).result = .ok result
            ∧ result.motion.Reproduces .rate ⟨.turned 0, 0, 0⟩ := by
  rcases build_cases .rate (.number 2) threeTurns with
    ⟨hsmall, _⟩ | ⟨_, hshort, _⟩ | ⟨_, _, e, hbuilt, htable⟩
  · exact absurd hsmall (by decide)
  · exact absurd hshort (by simp [threeTurns, Count.value])
  · have hentries : e.entries = threeTurns :=
      htable.entries_eq sound_threeTurns (by simp [threeTurns])
    have hcount : 1 + 1 < e.entries.length := by simp [hentries, threeTurns]
    have hentry : e.entries[1] = ⟨0, .turned 0, 0, 0⟩ := by simp [hentries, threeTurns]
    have hs : e.entries[1 - 1].time ≤ -1 / 2 ∧ (-1 / 2 : ℝ) < e.entries[1].time := by
      constructor <;> norm_num [hentries, threeTurns]
    have hs' : e.entries[1].time ≤ 1 / 2 ∧ (1 / 2 : ℝ) < e.entries[1 + 1].time := by
      constructor <;> norm_num [hentries, threeTurns]
    obtain ⟨_, _, ⟨before, after, hbefore, hafter, hwindows⟩, _⟩ :=
      windows_meet (ε := 0) sound_threeTurns hbuilt le_rfl one_pos hcount hs hs'
    refine ⟨e, hbuilt, before, after, hbefore, hafter, ?_⟩
    intro window hwindow
    obtain ⟨_, hreproduces⟩ := hwindows window hwindow
    rw [hentry] at hreproduces
    exact hreproduces

end AngularMotion.Ephemeris
