import AngularMotion.Proofs.Interpolation.Attempt

/-!
# Searches over the reals

The offset after `k` restarts is known in closed form (`iterate_restart`). A search settles at the
first accepted attempt:

* `searchFrom_ok`: where a search ends, an attempt on one of the offsets was accepted;
* `searchFrom_first`: a search ends at the first accepted attempt, with one restart for each attempt
  before it.
-/

namespace AngularMotion

/-! ## Turns about the first axis -/

/-- The turn about the first axis by twice an angle. -/
noncomputable def Quaternion.turned (angle : ℝ) : Quaternion ℝ :=
  ⟨Real.cos angle, ⟨Real.sin angle, 0, 0⟩⟩

theorem Quaternion.normalized_turned (angle : ℝ) : (turned angle).Normalized := by
  rw [normalized_iff]
  simp only [turned, mul_zero, add_zero]
  linear_combination Real.sin_sq_add_cos_sq angle

theorem Quaternion.turned_zero : turned 0 = ⟨1, 0⟩ := by
  ext <;> simp [turned]

theorem Quaternion.turned_compose (a b : ℝ) : (turned a).compose (turned b) = turned (a + b) := by
  apply hamilton_injective
  rw [(normalized_turned a).hamilton_compose (normalized_turned b)]
  ext
  · simp [turned, Real.cos_add]
  · simp [turned, Real.sin_add]
    ring
  · simp [turned]
  · simp [turned]

/-- Whether an event reports a restart. -/
def Event.isRestart {τ α : Type} : Event τ α → Bool
  | restart .. => true
  | _ => false

/-- A value is reached after a number of restarts, and no failure is reported. -/
structure Outcome.Reaches {τ α β : Type} (o : Outcome τ α β) (value : β) (restarts : Nat) :
    Prop where
  result : o.result = .ok value
  restarts : o.events.countP Event.isRestart = restarts
  quiet : ∀ event ∈ o.events, event.isFailure = false

theorem Outcome.Reaches.map {τ α β γ : Type} {o : Outcome τ α β} {value : β} {restarts : Nat}
    (h : o.Reaches value restarts) (f : β → γ) : (o.map f).Reaches (f value) restarts where
  result := by
    rw [Outcome.map, h.result]
    rfl
  restarts := h.restarts
  quiet := h.quiet

namespace Interpolation

/-! ## Offsets -/

section Definitions

variable {τ α : Type} [Timeline τ α] [Elementary α] [Storable α]
  [Zero α] [One α] [Add α] [Sub α] [Mul α] [Neg α] [Div α] [NatCast α] [OfNat α 2] [OfNat α 4]
  [OfScientific α] [LT α] [DecidableLT α]

/-- The offset after a restart. -/
def restart (p : Working α) (size : Nat) (offset : Stamped τ (Coordinates α)) :
    Stamped τ (Coordinates α) :=
  offset.addOffset (restartTurn p size)

/-- The attempt on an offset, with the threshold for the sample. -/
def attemptAt (p : Working α) (trust : Trust) (time : τ) (sample : List (Stamped τ (Coordinates α)))
    (offset : Stamped τ (Coordinates α)) : Except (Fault τ) (Attempt τ α) :=
  attempt p trust time sample offset (singularityThreshold (sample.length : α))

/-- The first attempt to interpolate a sample is accepted. -/
def AcceptsFirst (p : Working α) (trust : Trust) (time : τ)
    (sample : List (Stamped τ (Coordinates α))) : Prop :=
  ∃ first knots, firstOffset p trust time sample = .ok first
    ∧ attemptAt p trust time sample first = .ok (.accepted knots)

/-- The attempts that are left for a sample. -/
def searchFrom (p : Working α) (trust : Trust) (time : τ)
    (sample : List (Stamped τ (Coordinates α))) (left index : Nat)
    (offset : Stamped τ (Coordinates α)) :
    Outcome τ α (Settled (Stamped τ (Coordinates α)) α) :=
  search p trust time (reduction p time sample) left index offset

end Definitions

/-- The model at the target: a turn and a constant rate. -/
noncomputable def offsetOf (time angle : ℝ) (rate : Vec3 ℝ) : Stamped ℝ (Coordinates ℝ) :=
  ⟨time, .turned angle, rate, 0⟩

variable (ε time : ℝ)

/-- The model moved on by some seconds. -/
theorem shiftedBy_offsetOf (angle : ℝ) (rate : Vec3 ℝ) (dt : ℝ) :
    (offsetOf time angle rate).motion.shiftedBy (.exact ε) dt
      = ⟨(Quaternion.exp (dt • rate)).compose (.turned angle), rate, 0⟩ :=
  Coordinates.shiftedBy_spin ε rfl dt

/-- The model that has not been turned, moved on. -/
theorem shiftedBy_offsetOf_zero (rate : Vec3 ℝ) (dt : ℝ) :
    (offsetOf time 0 rate).motion.shiftedBy (.exact ε) dt
      = ⟨Quaternion.exp (dt • rate), rate, 0⟩ := by
  rw [shiftedBy_offsetOf, Quaternion.turned_zero, (Quaternion.normalized_exp _).compose_one]

variable {ε time} in
/-- An offset at rest leaves the rotation. -/
theorem rotation_remainder_rest {point : Stamped ℝ (Coordinates ℝ)}
    (hpoint : point.motion.rotation.Normalized) :
    (remainder (.exact ε) time (offsetOf time 0 0).motion point).motion.rotation
      = point.motion.rotation := by
  rw [remainder, shiftedBy_offsetOf_zero, Vec3.smul_zero, Quaternion.exp_zero]
  simp only [Coordinates.subtractOffset, Coordinates.addOffset, Coordinates.revert,
    Quaternion.inverse_one, hpoint.compose_one]

theorem restartTurn_exact (size : Nat) :
    restartTurn (.exact ε) size = ⟨.turned (Real.pi / size), 0, 0⟩ := by
  have hangle : (restartAngle (size : ℝ)) / 2 = Real.pi / size := by
    change 2 * Real.pi / size / 2 = _
    ring
  apply Coordinates.ext
  · change Quaternion.ofAxisAngle (.exact ε) ⟨1, 0, 0⟩ (restartAngle (size : ℝ)) = _
    rw [Quaternion.ofAxisAngle_first, hangle, Quaternion.turned]
  · rfl
  · rfl

theorem restart_offsetOf (size : Nat) (angle : ℝ) (rate : Vec3 ℝ) :
    restart (.exact ε) size (offsetOf time angle rate)
      = offsetOf time (angle + Real.pi / size) rate := by
  rw [restart, restartTurn_exact]
  simp only [Stamped.addOffset, offsetOf, Coordinates.addOffset, Quaternion.turned_compose,
    Quaternion.apply_zero, Vec3.add_zero]

/-- The offset after some restarts. -/
theorem iterate_restart (size k : Nat) (angle : ℝ) (rate : Vec3 ℝ) :
    (restart (.exact ε) size)^[k] (offsetOf time angle rate)
      = offsetOf time (angle + k * (Real.pi / size)) rate := by
  induction k with
  | zero => simp
  | succ k ih =>
    rw [Function.iterate_succ_apply', ih, restart_offsetOf]
    push_cast
    congr 1
    ring

/-! ## The first offset -/

/-- The rate that leads from one point to the next, where instants are numbers. -/
def rateBetween {α : Type} [Elementary α] [Storable α] [Zero α] [One α] [Add α] [Sub α] [Mul α]
    [Neg α] [Div α] [OfNat α 2] [OfScientific α] [LT α] [DecidableLT α] (p : Working α)
    (pair : Stamped α (Coordinates α) × Stamped α (Coordinates α)) : Vec3 α :=
  Coordinates.estimateRate p pair.1.motion.rotation pair.2.motion.rotation
    (pair.2.time - pair.1.time)

/-- Distinct instants are apart from the next ones. -/
theorem sub_ne_zero_of_mem_zip_tail {instants : List ℝ} (hnodup : instants.Nodup) {pair : ℝ × ℝ}
    (hpair : pair ∈ instants.zip instants.tail) : pair.2 - pair.1 ≠ 0 := by
  obtain ⟨i, hi, rfl⟩ := List.getElem_of_mem hpair
  rw [List.length_zip, List.length_tail] at hi
  rw [List.getElem_zip, List.getElem_tail, sub_ne_zero]
  intro hsame
  have hindex := hnodup.getElem_inj_iff.mp hsame
  omega

variable (trust : Trust) {sample : List (Stamped ℝ (Coordinates ℝ))}

/-- There are too few points for the rates of a first offset. -/
def TooFew (trust : Trust) (sample : List (Stamped ℝ (Coordinates ℝ))) : Prop :=
  sample = [] ∨ trust = .rotation ∧ sample.length = 1

theorem firstOffset_single (h : sample.length = 1) :
    firstOffset (.exact ε) .rotation time sample = .error (.tooFewForRates 1) := by
  obtain ⟨point, rfl⟩ := List.length_eq_one_iff.mp h
  rfl

theorem mean_replicate {n : Nat} (hn : 0 < n) (rate : Vec3 ℝ) :
    Vec3.mean (List.replicate n rate) = rate := by
  have hne : (n : ℝ) ≠ 0 := Nat.cast_ne_zero.mpr hn.ne'
  ext <;> simp [Vec3.mean, Storable.mean, hne]

/-- The mean rate, where instants are numbers. -/
theorem meanRate_of_since {α : Type} [Timeline α α] [Elementary α] [Storable α] [Zero α] [One α]
    [Add α] [Sub α] [Mul α] [Neg α] [Div α] [OfNat α 2] [OfScientific α] [LT α] [DecidableLT α]
    (hsince : ∀ t s : α, Timeline.since t s = .ok (t - s)) (p : Working α) (trust : Trust)
    (sample : List (Stamped α (Coordinates α))) :
    meanRate p trust sample =
      if sample.isEmpty then .error .emptySample
      else if 0 < trust.maxOrder then .ok (.mean (sample.map (·.motion.rate)))
      else if sample.length < 2 then .error (.tooFewForRates sample.length)
      else .ok (.mean ((sample.zip sample.tail).map (rateBetween p))) := by
  have hrates := List.mapM_pure (m := Except (Fault α)) (l := sample.zip sample.tail)
    (f := rateBetween p)
  have hmean := congrArg (· >>= fun rates => Except.ok (Vec3.mean rates)) hrates
  simp only [meanRate, hsince]
  congr 3

theorem meanRate_eq (p : Working ℝ) (trust : Trust) (sample : List (Stamped ℝ (Coordinates ℝ))) :
    meanRate p trust sample =
      if sample.isEmpty then .error .emptySample
      else if 0 < trust.maxOrder then .ok (.mean (sample.map (·.motion.rate)))
      else if sample.length < 2 then .error (.tooFewForRates sample.length)
      else .ok (.mean ((sample.zip sample.tail).map (rateBetween p))) :=
  meanRate_of_since (fun _ _ => rfl) p trust sample

theorem meanRate_exact (h : ¬ TooFew trust sample) :
    ∃ rate, meanRate (.exact ε) trust sample = .ok rate := by
  obtain ⟨hne, hsingle⟩ := not_or.mp h
  rw [meanRate_eq, if_neg (by simpa using hne)]
  split
  · exact ⟨_, rfl⟩
  · rename_i horder
    have hlen : ¬ sample.length < 2 := by
      have htrust : trust = .rotation := by
        cases trust <;> simp_all [Trust.maxOrder]
      have hpos : sample.length ≠ 0 := by simpa using hne
      have hone : sample.length ≠ 1 := fun h1 => hsingle ⟨htrust, h1⟩
      omega
    rw [if_neg hlen]
    exact ⟨_, rfl⟩

variable (sample) in
/-- The first offset starts from the identity, at the mean rate. -/
theorem firstOffset_eq :
    firstOffset (.exact ε) trust time sample
      = (meanRate (.exact ε) trust sample).map (offsetOf time 0) := by
  have hoffset : offsetOf time 0 = fun rate => ⟨time, ⟨1, 0⟩, rate, 0⟩ := by
    funext rate
    rw [offsetOf, Quaternion.turned_zero]
  rw [firstOffset, hoffset]
  cases meanRate (.exact ε) trust sample <;> rfl

theorem firstOffset_exact (h : ¬ TooFew trust sample) :
    ∃ rate, firstOffset (.exact ε) trust time sample = .ok (offsetOf time 0 rate) := by
  obtain ⟨rate, hrate⟩ := meanRate_exact ε trust h
  exact ⟨rate, by rw [firstOffset_eq, hrate]; rfl⟩

/-! ## Steps of a search -/

section Steps

variable {τ α : Type} [Timeline τ α] [Elementary α] [Storable α]
  [Zero α] [One α] [Add α] [Sub α] [Mul α] [Neg α] [Div α] [NatCast α] [OfNat α 2] [OfNat α 4]
  [OfScientific α] [LT α] [DecidableLT α] {p : Working α} {trust : Trust} {time : τ}
  {sample : List (Stamped τ (Coordinates α))} {left index : Nat}
  {offset : Stamped τ (Coordinates α)}

theorem searchFrom_accepted {knots : List (Knot α)}
    (haccepted : attemptAt p trust time sample offset = .ok (.accepted knots)) :
    searchFrom p trust time sample (left + 1) index offset = ⟨[], .ok ⟨offset, knots⟩⟩ := by
  have hattempt : attemptOn p trust (singularityThreshold ((reduction p time sample).size : α))
      ((reduction p time sample).residuals offset) = .ok (.accepted knots) := haccepted
  rw [searchFrom, search]
  simp only [hattempt]

theorem searchFrom_refused {instant : τ} {scalarPart : α}
    (hrefused : attemptAt p trust time sample offset = .ok (.tooClose instant scalarPart)) :
    searchFrom p trust time sample (left + 1) index offset
      = (searchFrom p trust time sample left (index + 1)
          (restart p sample.length offset)).after
        [.tooClose instant scalarPart (singularityThreshold (sample.length : α)),
          .restart time (index + 1) (index + left + 1)] := by
  have hattempt : attemptOn p trust (singularityThreshold ((reduction p time sample).size : α))
      ((reduction p time sample).residuals offset) = .ok (.tooClose instant scalarPart) := hrefused
  rw [searchFrom, search]
  simp only [hattempt]
  rfl

end Steps

variable {trust} {left index : Nat} {offset : Stamped ℝ (Coordinates ℝ)}

variable (trust sample) in
/-- An attempt is accepted, or a residual other than the first one is beyond the threshold. -/
theorem attemptAt_total (offset : Stamped ℝ (Coordinates ℝ)) :
    (∃ knots, attemptAt (.exact ε) trust time sample offset = .ok (.accepted knots))
      ∨ ∃ point ∈ sample.tail,
        -singularityThreshold (sample.length : ℝ)
            < |(remainder (.exact ε) time offset.motion point).motion.rotation.w|
          ∧ ∃ scalarPart, attemptAt (.exact ε) trust time sample offset
            = .ok (.tooClose point.time scalarPart) := by
  rcases attemptOn_total ε trust (singularityThreshold_neg (sample.length : ℝ))
    (sample.map (remainder (.exact ε) time offset.motion)) with
    ⟨knots, h⟩ | ⟨r, hr, hlarge, scalarPart, h⟩
  · refine .inl ⟨knots, ?_⟩
    rw [attemptAt, attempt, residuals_exact, h]
  · rw [← List.map_tail] at hr
    obtain ⟨point, hpoint, rfl⟩ := List.mem_map.mp hr
    refine .inr ⟨point, hpoint, hlarge, scalarPart, ?_⟩
    rw [attemptAt, attempt, residuals_exact, h]
    rfl

/-- At distinct instants the knots of an accepted attempt have distinct abscissae. -/
theorem nodup_abscissa_of_accepted (hnodup : (sample.map (·.time)).Nodup) {knots : List (Knot ℝ)}
    (haccepted : attemptAt (.exact ε) trust time sample offset = .ok (.accepted knots)) :
    (knots.map (·.abscissa)).Nodup := by
  rw [attemptAt, attempt, residuals_exact] at haccepted
  rw [map_abscissa_of_keeps (attemptFrom_accepted ε haccepted), List.map_map]
  have hshifted := hnodup.map (sub_left_injective (b := time))
  rwa [List.map_map] at hshifted

/-! ## Runs of a search -/

/-- Where a search ends, the attempt on the offset after some restarts was accepted. -/
theorem searchFrom_ok {s : Settled (Stamped ℝ (Coordinates ℝ)) ℝ}
    (h : (searchFrom (.exact ε) trust time sample left index offset).result = .ok s) :
    attemptAt (.exact ε) trust time sample s.offset = .ok (.accepted s.knots)
      ∧ ∃ k, s.offset = (restart (.exact ε) sample.length)^[k] offset := by
  induction left generalizing index offset with
  | zero => cases h
  | succ left ih =>
    rcases attemptAt_total ε time trust sample offset with
      ⟨knots, haccepted⟩ | ⟨_, _, _, _, hrefused⟩
    · rw [searchFrom_accepted haccepted] at h
      cases h
      exact ⟨haccepted, 0, rfl⟩
    · rw [searchFrom_refused hrefused] at h
      obtain ⟨haccepted, k, hk⟩ := ih h
      exact ⟨haccepted, k + 1, hk⟩

/-- A search ends at the first accepted attempt, with one restart for each attempt before it. -/
theorem searchFrom_first {k : Nat} {knots : List (Knot ℝ)} (hleft : k < left)
    (hrefused : ∀ j < k, ∃ instant scalarPart,
      attemptAt (.exact ε) trust time sample ((restart (.exact ε) sample.length)^[j] offset)
        = .ok (.tooClose instant scalarPart))
    (haccepted :
      attemptAt (.exact ε) trust time sample ((restart (.exact ε) sample.length)^[k] offset)
        = .ok (.accepted knots)) :
    (searchFrom (.exact ε) trust time sample left index offset).Reaches
      ⟨(restart (.exact ε) sample.length)^[k] offset, knots⟩ k := by
  induction k generalizing left index offset with
  | zero =>
    obtain ⟨left, rfl⟩ := Nat.exists_eq_add_one_of_ne_zero hleft.ne'
    rw [Function.iterate_zero_apply] at haccepted ⊢
    rw [searchFrom_accepted haccepted]
    exact ⟨rfl, rfl, by simp⟩
  | succ k ih =>
    obtain ⟨left, rfl⟩ := Nat.exists_eq_add_one_of_ne_zero (Nat.ne_zero_of_lt hleft)
    obtain ⟨instant, scalarPart, hfirst⟩ := hrefused 0 (Nat.succ_pos k)
    rw [Function.iterate_zero_apply] at hfirst
    have hrest := @ih left (index + 1) (restart (.exact ε) sample.length offset) (by omega)
      (fun j hj => hrefused (j + 1) (by omega)) haccepted
    rw [searchFrom_refused hfirst]
    refine ⟨hrest.result, ?_, ?_⟩
    · simp [Outcome.after, Event.isRestart, List.countP_cons, hrest.restarts]
    · simpa [Outcome.after, Event.isFailure] using hrest.quiet

/-! ## Settling -/

theorem settle_empty :
    settle (.exact ε) trust time [] = ⟨[], .error .emptySample⟩ := rfl

theorem settle_single (h : sample.length = 1) :
    settle (.exact ε) .rotation time sample = ⟨[], .error (.tooFewForRates 1)⟩ := by
  rw [settle, firstOffset_single ε time h, settleFrom]

theorem settle_of_firstOffset {rate : Vec3 ℝ}
    (h : firstOffset (.exact ε) trust time sample = .ok (offsetOf time 0 rate)) :
    settle (.exact ε) trust time sample
      = searchFrom (.exact ε) trust time sample (attemptLimit sample.length) 0
          (offsetOf time 0 rate) := by
  rw [settle, h]
  rfl

/-- If the first attempt is accepted, it settles. -/
theorem settle_of_accepted {first : Stamped ℝ (Coordinates ℝ)} {knots : List (Knot ℝ)}
    (hfirst : firstOffset (.exact ε) trust time sample = .ok first)
    (haccepted : attemptAt (.exact ε) trust time sample first = .ok (.accepted knots)) :
    settle (.exact ε) trust time sample = ⟨[], .ok ⟨first, knots⟩⟩ := by
  rw [settle, hfirst]
  exact searchFrom_accepted haccepted

theorem not_tooFew_of_settle {s : Settled (Stamped ℝ (Coordinates ℝ)) ℝ}
    (h : (settle (.exact ε) trust time sample).result = .ok s) : ¬ TooFew trust sample := by
  rintro (rfl | ⟨rfl, hsingle⟩)
  · cases h
  · rw [settle_single ε time hsingle] at h
    cases h

/-- What settles is an accepted attempt on one of the offsets. -/
theorem settle_ok {s : Settled (Stamped ℝ (Coordinates ℝ)) ℝ}
    (h : (settle (.exact ε) trust time sample).result = .ok s) :
    sample ≠ [] ∧ attemptAt (.exact ε) trust time sample s.offset = .ok (.accepted s.knots)
      ∧ ∃ angle rate, s.offset = offsetOf time angle rate := by
  have hfew := not_tooFew_of_settle ε time h
  obtain ⟨rate, hrate⟩ := firstOffset_exact ε time trust hfew
  rw [settle_of_firstOffset ε time hrate] at h
  obtain ⟨haccepted, k, hk⟩ := searchFrom_ok ε time h
  rw [iterate_restart] at hk
  exact ⟨(not_or.mp hfew).1, haccepted, _, rate, hk⟩

/-- The offset that settles is a rotation, at a constant rate. -/
theorem settle_offset {s : Settled (Stamped ℝ (Coordinates ℝ)) ℝ}
    (h : (settle (.exact ε) trust time sample).result = .ok s) :
    s.offset.motion.rotation.Normalized ∧ s.offset.motion.acceleration = 0 := by
  obtain ⟨_, _, angle, rate, hoffset⟩ := settle_ok ε time h
  rw [hoffset]
  exact ⟨Quaternion.normalized_turned angle, rfl⟩

/-- Interpolation goes through the restarts of its search. -/
theorem interpolate_reaches {s : Settled (Stamped ℝ (Coordinates ℝ)) ℝ} {restarts : Nat}
    (h : (settle (.exact ε) trust time sample).Reaches s restarts) :
    (interpolate (.exact ε) trust time sample).Reaches
      ⟨time, (curve (.exact ε) s.knots 0).addOffset s.offset.motion⟩ restarts :=
  h.map _

/-- What is interpolated is the curve of the settled knots at the target, with the offset. -/
theorem interpolate_ok {result : Stamped ℝ (Coordinates ℝ)}
    (h : (interpolate (.exact ε) trust time sample).result = .ok result) :
    ∃ s, (settle (.exact ε) trust time sample).result = .ok s
      ∧ result = ⟨time, (curve (.exact ε) s.knots 0).addOffset s.offset.motion⟩ := by
  rw [interpolate, Outcome.map] at h
  match hsettle : (settle (.exact ε) trust time sample).result with
  | .error fault => rw [hsettle] at h; cases h
  | .ok s =>
    rw [hsettle] at h
    cases h
    exact ⟨s, rfl, rfl⟩

end Interpolation

end AngularMotion
