import AngularMotion.Proofs.Ephemeris.Queries

/-!
# Playback over the reals

The layout of a playback decides how it ends (`run_ends`). Without a step there is no sample, and one
query has no grid; too few points, for a window or for the table, are refused. Every other playback
asks only for instants in the range of its table, and finishes.
-/

namespace AngularMotion

namespace Fault

variable {τ : Type}

/-- A quotient by zero was asked for. -/
def IsDivisionByZero : Fault τ → Prop
  | clock (.arithmetic (.divisionByZero _)) => True
  | clock (.arithmetic (.floorDivisionByZero _)) => True
  | _ => False

/-- There are too few points for what is asked of them. -/
def IsInsufficient : Fault τ → Prop
  | emptySample | tooFewForRates _ | windowTooSmall _ _ | tableTooSmall _ _ => True
  | _ => False

end Fault

namespace Playback

/-! ## The sample -/

theorem normalized_spin (ε rate t : ℝ) : (spin (.exact ε) rate t).Normalized := by
  refine (Quaternion.normalized_exp _).compose (Quaternion.normalized_normalize ?_)
  intro hzero
  have hw : (0.9 : ℝ) = 0 := congrArg Quaternion.w hzero
  norm_num at hw

section Numbers

variable {α : Type} [Elementary α] [Storable α] [Zero α] [One α] [Add α] [Sub α] [Mul α] [Neg α]
  [Div α] [NatCast α] [OfNat α 2] [OfNat α 3] [OfScientific α] [LT α] [DecidableLT α]
  (p : Working α) (s : Settings α)

/-- A motion that is sampled, where instants are numbers. -/
def point (i : Nat) : Stamped α (Coordinates α) :=
  let time := i * s.step
  let given := if s.trust.maxOrder = 0 then none else some (spinRate p s.rate)
  ⟨time, .build p (some (spin p s.rate time)) given none⟩

def sample (count : Nat) : List (Stamped α (Coordinates α)) := (List.range count).map (point p s)

theorem length_sample (count : Nat) : (sample p s count).length = count := by
  rw [sample, List.length_map, List.length_range]

end Numbers

variable (ε : ℝ) (s : Settings ℝ)

theorem normalized_sample (count : Nat) :
    ∀ point ∈ sample (.exact ε) s count, point.motion.rotation.Normalized := by
  intro point hpoint
  obtain ⟨i, _, rfl⟩ := List.mem_map.mp hpoint
  exact normalized_spin ε s.rate _

/-- The sample begins at zero. -/
theorem zero_mem_sample {count : Nat} (h : 0 < count) :
    0 ∈ (sample (.exact ε) s count).map (·.time) := by
  have hfirst : 0 ∈ List.range count := List.mem_range.mpr h
  have hpoint : (point (.exact ε) s 0).time = 0 := by simp [point]
  exact List.mem_map.mpr ⟨point (.exact ε) s 0, List.mem_map_of_mem hfirst, hpoint⟩

/-- The count of samples: the whole steps in the duration, and the start. -/
noncomputable def sampleCount : Nat := (⌊s.duration / s.step⌋ + 1).toNat

theorem sampleCount_lt_iff {points : Int} (h : 0 < points) :
    sampleCount s < points ↔ ⌊s.duration / s.step⌋ + 1 < points := by
  rw [sampleCount]
  omega

/-! ## The table -/

theorem table_of_step (h : s.step ≠ 0) :
    table (.exact ε) s s.rate
      = Ephemeris.build s.trust s.points (sample (.exact ε) s (sampleCount s)) := by
  have hsteps : Schedule.steps s.duration s.step = .ok ⌊s.duration / s.step⌋ := if_neg h
  have hsample : (List.range (sampleCount s)).mapM
      (samplePoint (.exact ε) s.trust s.rate s.step)
        = .ok (sample (.exact ε) s (sampleCount s)) :=
    List.mapM_pure
  rw [table, hsteps]
  change (Except.mapError _ ((List.range (sampleCount s)).mapM _) >>= _) = _
  rw [hsample]
  rfl

/-- A table is refused for one of three reasons, and built otherwise. -/
theorem table_cases :
    s.step = 0
        ∧ table (.exact ε) s s.rate = .error (.clock (.arithmetic (.floorDivisionByZero false)))
      ∨ s.step ≠ 0 ∧ s.points.value < s.trust.minimumPoints
        ∧ table (.exact ε) s s.rate = .error (.windowTooSmall s.trust s.points)
      ∨ s.step ≠ 0 ∧ s.trust.minimumPoints ≤ s.points.value ∧ sampleCount s < s.points.value
        ∧ table (.exact ε) s s.rate = .error (.tableTooSmall (sampleCount s) s.points)
      ∨ s.step ≠ 0 ∧ s.trust.minimumPoints ≤ s.points.value ∧ s.points.value ≤ sampleCount s
        ∧ ∃ e, table (.exact ε) s s.rate = .ok e
          ∧ e.Tabulates s.trust s.points (sample (.exact ε) s (sampleCount s)) := by
  by_cases hstep : s.step = 0
  · have hsteps : Schedule.steps s.duration s.step = .error (.floorDivisionByZero false) :=
      if_pos hstep
    refine .inl ⟨hstep, ?_⟩
    rw [table, hsteps]
    rfl
  · have hcases := Ephemeris.build_cases s.trust s.points (sample (.exact ε) s (sampleCount s))
    rw [← table_of_step ε s hstep, length_sample] at hcases
    rcases hcases with ⟨hsmall, hfault⟩ | ⟨henough, hshort, hfault⟩ | ⟨henough, hlong, hbuilt⟩
    · exact .inr (.inl ⟨hstep, hsmall, hfault⟩)
    · exact .inr (.inr (.inl ⟨hstep, henough, hshort, hfault⟩))
    · exact .inr (.inr (.inr ⟨hstep, henough, hlong, hbuilt⟩))

/-! ## The queries -/

variable {ε s} {count : Nat} {e : Ephemeris ℝ (Coordinates ℝ)}

/-- Zero is in the range of the table. -/
theorem zero_in_range (h : e.Tabulates s.trust s.points (sample (.exact ε) s count)) :
    e.first ≤ 0 ∧ 0 ≤ e.last := by
  have hcount : 0 < count := by
    have hpositive := e.points_pos
    have hle := e.points_le
    rw [h.perm.length_eq, length_sample] at hle
    omega
  have hzero := zero_mem_sample ε s hcount
  exact ⟨h.isLeast_first.2 hzero, h.isGreatest_last.2 hzero⟩

/-- The grid of two or more queries reaches from zero to the end of the table. -/
theorem query_in_range (h : e.Tabulates s.trust s.points (sample (.exact ε) s count))
    (hqueries : s.queries.value ≠ 1) {i : Nat} (hi : i < s.queries.value.toNat) :
    ∃ t, Schedule.portion e.last i (s.queries.value - 1) = .ok t ∧ e.first ≤ t ∧ t ≤ e.last := by
  obtain ⟨hfirst, hlast⟩ := zero_in_range h
  have hgrid : 0 < s.queries.value - 1 := by omega
  have hposition : (i : ℝ) ≤ (s.queries.value - 1 : Int) := by
    have hle : (i : Int) ≤ s.queries.value - 1 := by omega
    exact_mod_cast hle
  have hparts : (0 : ℝ) < (s.queries.value - 1 : Int) := by exact_mod_cast hgrid
  refine ⟨e.last * i / (s.queries.value - 1 : Int), if_neg hgrid.ne', hfirst.trans ?_, ?_⟩
  · positivity
  · rw [div_le_iff₀ hparts]
    exact mul_le_mul_of_nonneg_left hposition hlast

/-- Every query in the range of the table is measured. -/
theorem exists_measure (h : e.Tabulates s.trust s.points (sample (.exact ε) s count))
    (hqueries : s.queries.value ≠ 1) {i : Nat} (hi : i < s.queries.value.toNat)
    (errors : Errors ℝ) :
    ∃ more, measure (.exact ε) s s.rate e errors i = .ok more := by
  obtain ⟨t, htime, hfirst, hlast⟩ := query_in_range h hqueries hi
  obtain ⟨motion, hmotion⟩ :=
    Ephemeris.exists_interpolate ε h (normalized_sample ε s count) hfirst hlast
  rw [measure, htime]
  change ∃ more, ((e.interpolate (.exact ε) t).result >>= _) = .ok more
  rw [hmotion]
  exact ⟨_, rfl⟩

/-- A fold of steps that never fail does not fail. -/
theorem exists_foldlM {β ι φ : Type} {step : β → ι → Except φ β} :
    ∀ (items : List ι) (start : β), (∀ state, ∀ item ∈ items, ∃ next, step state item = .ok next) →
      ∃ last, items.foldlM step start = .ok last
  | [], start, _ => ⟨start, rfl⟩
  | item :: items, start, h => by
    obtain ⟨next, hnext⟩ := h start item List.mem_cons_self
    obtain ⟨last, hlast⟩ := exists_foldlM items next fun state later hlater =>
      h state later (List.mem_cons_of_mem item hlater)
    refine ⟨last, ?_⟩
    rw [List.foldlM_cons, hnext]
    exact hlast

theorem exists_errors (h : e.Tabulates s.trust s.points (sample (.exact ε) s count))
    (hqueries : s.queries.value ≠ 1) :
    ∃ worst, errors (.exact ε) s s.rate e = .ok worst :=
  exists_foldlM _ _ fun state _ hi => exists_measure h hqueries (List.mem_range.mp hi) state

/-- One query has no grid. -/
theorem errors_single (ε : ℝ) (e : Ephemeris ℝ (Coordinates ℝ)) (hqueries : s.queries.value = 1) :
    errors (.exact ε) s s.rate e = .error (.clock (.arithmetic (.divisionByZero false))) := by
  have hgrid : Schedule.portion e.last 0 (s.queries.value - 1) = .error (.divisionByZero false) :=
    if_pos (by omega)
  have hmeasure (start : Errors ℝ) : measure (.exact ε) s s.rate e start 0
      = .error (.clock (.arithmetic (.divisionByZero false))) := by
    rw [measure, hgrid]
    rfl
  rw [errors, hqueries]
  change (measure (.exact ε) s s.rate e _ 0 >>= _) = _
  rw [hmeasure]
  rfl

/-! ## The run -/

variable (ε s)

/-- The fault of the table is the fault of the run. -/
theorem failure_of_table {fault : Fault ℝ} (h : table (.exact ε) s s.rate = .error fault) :
    (run (.exact ε) s).failure = some fault := by
  have hfactor : Schedule.factor s.rate = .ok s.rate := rfl
  rw [run, hfactor]
  simp only [h]

/-- Behind the table the fault of the queries is that of the run. -/
theorem failure_of_errors (h : table (.exact ε) s s.rate = .ok e) {fault : Fault ℝ}
    (herrors : errors (.exact ε) s s.rate e = .error fault) :
    (run (.exact ε) s).failure = some fault := by
  have hfactor : Schedule.factor s.rate = .ok s.rate := rfl
  rw [run, hfactor]
  simp only [h, herrors]

theorem failure_eq_none (h : table (.exact ε) s s.rate = .ok e) {worst : Errors ℝ}
    (herrors : errors (.exact ε) s s.rate e = .ok worst) :
    (run (.exact ε) s).failure = none := by
  have hfactor : Schedule.factor s.rate = .ok s.rate := rfl
  rw [run, hfactor]
  simp only [h, herrors]

/-- A playback fails by a division by zero without a step, or if one query is asked of a table; for
want of points if windows or the table have too few; and in no other case, when its queries are
all in the range of the table. -/
theorem run_ends :
    ((∃ fault, (run (.exact ε) s).failure = some fault ∧ fault.IsDivisionByZero) ↔
        s.step = 0 ∨ (∃ e, table (.exact ε) s s.rate = .ok e) ∧ s.queries.value = 1)
      ∧ ((∃ fault, (run (.exact ε) s).failure = some fault ∧ fault.IsInsufficient) ↔
        s.step ≠ 0 ∧ (s.points.value < s.trust.minimumPoints
          ∨ ⌊s.duration / s.step⌋ + 1 < s.points.value))
      ∧ ((∃ fault, (run (.exact ε) s).failure = some fault
            ∧ (fault.IsDivisionByZero ∨ fault.IsInsufficient))
        ∨ (run (.exact ε) s).failure = none
          ∧ ∃ e, table (.exact ε) s s.rate = .ok e
            ∧ ∀ i < s.queries.value.toNat, ∃ t,
              Schedule.portion e.last i (s.queries.value - 1) = .ok t
                ∧ e.first ≤ t ∧ t ≤ e.last) := by
  have hpositive := s.trust.minimumPoints_pos
  rcases table_cases ε s with
    ⟨hstep, htable⟩ | ⟨hstep, hsmall, htable⟩ | ⟨hstep, henough, hshort, htable⟩
      | ⟨hstep, henough, hlong, e, htable, hsample⟩
  · have hrun := failure_of_table ε s htable
    simp [hrun, hstep, Fault.IsDivisionByZero, Fault.IsInsufficient]
  · have hrun := failure_of_table ε s htable
    simp [hrun, hstep, hsmall, htable, Fault.IsDivisionByZero, Fault.IsInsufficient]
  · have hrun := failure_of_table ε s htable
    have hfew := (sampleCount_lt_iff s (by omega)).mp hshort
    simp [hrun, hstep, hfew, htable, Fault.IsDivisionByZero, Fault.IsInsufficient]
  · have hpoints : ¬ (s.points.value < s.trust.minimumPoints
        ∨ ⌊s.duration / s.step⌋ + 1 < s.points.value) := by
      rw [← sampleCount_lt_iff s (by omega)]
      omega
    by_cases hqueries : s.queries.value = 1
    · have hrun := failure_of_errors ε s htable (errors_single ε e hqueries)
      simp [hrun, hstep, hpoints, htable, hqueries, Fault.IsDivisionByZero, Fault.IsInsufficient]
    · obtain ⟨worst, hworst⟩ := exists_errors hsample hqueries
      have hrun := failure_eq_none ε s htable hworst
      refine ⟨?_, ?_, .inr ⟨hrun, e, htable, fun i hi => query_in_range hsample hqueries hi⟩⟩
      · simp [hrun, hstep, hqueries]
      · simp [hrun, hpoints]

/-- A playback that goes back in time. -/
noncomputable def backward : Settings ℝ where
  rate := 1
  step := -1
  duration := -1
  points := .number 2
  trust := .rotation
  queries := .number 3

/-- Back in time a playback finishes too. -/
theorem backward_ends :
    (run (.exact 0) backward).failure = none
      ∧ ∃ e, table (.exact 0) backward backward.rate = .ok e
        ∧ ∃ t, Schedule.portion e.last 1 2 = .ok t ∧ e.first ≤ t ∧ t ≤ e.last := by
  have hsteps : ⌊backward.duration / backward.step⌋ = 1 := by norm_num [backward]
  have hstep : backward.step ≠ 0 := by norm_num [backward]
  obtain ⟨hdivision, hpoints, hfault | ⟨hrun, e, htable, hquery⟩⟩ := run_ends 0 backward
  · obtain ⟨fault, hrun, hzero | hfew⟩ := hfault
    · rcases hdivision.mp ⟨fault, hrun, hzero⟩ with hnone | ⟨_, hone⟩
      · exact absurd hnone hstep
      · exact absurd hone (by decide)
    · obtain ⟨_, hshort⟩ := hpoints.mp ⟨fault, hrun, hfew⟩
      rw [hsteps] at hshort
      exact absurd hshort (by decide)
  · exact ⟨hrun, e, htable, hquery 1 (by decide)⟩

end Playback

end AngularMotion
