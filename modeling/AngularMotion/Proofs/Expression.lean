import AngularMotion.Proofs.Guarded.Interpolation
import AngularMotion.Proofs.Interpolation.Reproduction

/-!
# Expressions of rotations and motions

An expression builds rotations from components, axes and rotation vectors, motions from rotations and
from modified Rodrigues vectors, and new ones from these by the operations on them. Samples of motions
at distinct instants are interpolated on the way. Every rotation that such an expression stands for is
normalized, and no operation in it divides by zero (`normSq_value`).
-/

namespace AngularMotion

open Guarded

/-- What an expression stands for. -/
inductive Kind where
  | rotation
  | motion
  | sample

/-- The values of a kind. -/
@[reducible] def Kind.Value (τ α : Type) : Kind → Type
  | rotation => Quaternion α
  | motion => Coordinates α
  | sample => List (Stamped τ (Coordinates α))

inductive Expression (τ α : Type) : Kind → Type where
  | components (q : Quaternion α) : Expression τ α .rotation
  | axisAngle (axis : Vec3 α) (angle : α) : Expression τ α .rotation
  | rotationVector (u : Vec3 α) : Expression τ α .rotation
  | identity : Expression τ α .rotation
  | compose (a b : Expression τ α .rotation) : Expression τ α .rotation
  | neg (a : Expression τ α .rotation) : Expression τ α .rotation
  | conjugate (a : Expression τ α .rotation) : Expression τ α .rotation
  | inverse (a : Expression τ α .rotation) : Expression τ α .rotation
  | rotationOf (m : Expression τ α .motion) : Expression τ α .rotation
  | build (a : Expression τ α .rotation) (rate acceleration : Vec3 α) : Expression τ α .motion
  | rodrigues (r : Rodrigues α) : Expression τ α .motion
  | revert (m : Expression τ α .motion) : Expression τ α .motion
  | addOffset (m offset : Expression τ α .motion) : Expression τ α .motion
  | subtractOffset (m offset : Expression τ α .motion) : Expression τ α .motion
  | shiftedBy (m : Expression τ α .motion) (dt : α) : Expression τ α .motion
  | interpolate (trust : Trust) (time : τ) (s : Expression τ α .sample) : Expression τ α .motion
  | empty : Expression τ α .sample
  | point (time : τ) (m : Expression τ α .motion) (rest : Expression τ α .sample) :
      Expression τ α .sample

namespace Expression

section Values

variable {τ α : Type} [Timeline τ α] [Elementary α] [Storable α]
  [Zero α] [One α] [Add α] [Sub α] [Mul α] [Neg α] [Div α] [NatCast α] [OfNat α 2] [OfNat α 4]
  [OfScientific α] [LT α] [DecidableLT α]

/-- The value of an expression, unless an interpolation in it fails. -/
def value (p : Working α) : {kind : Kind} → Expression τ α kind → Option (kind.Value τ α)
  | _, components q => some (.ofComponents p q)
  | _, axisAngle axis angle => some (.ofAxisAngle p axis angle)
  | _, rotationVector u => some (.ofRotationVector p u)
  | _, identity => some (.identity p)
  | _, compose a b => Option.map₂ .compose (a.value p) (b.value p)
  | _, neg a => (a.value p).map (-·)
  | _, conjugate a => (a.value p).map .conjugate
  | _, inverse a => (a.value p).map .inverse
  | _, rotationOf m => (m.value p).map (·.rotation)
  | _, build a rate acceleration =>
    (a.value p).map fun q => .build p (some q) (some rate) (some acceleration)
  | _, rodrigues r => some (r.coordinates p)
  | _, revert m => (m.value p).map .revert
  | _, addOffset m offset => Option.map₂ .addOffset (m.value p) (offset.value p)
  | _, subtractOffset m offset => Option.map₂ .subtractOffset (m.value p) (offset.value p)
  | _, shiftedBy m dt => (m.value p).map (·.shiftedBy p dt)
  | _, interpolate trust time s => (s.value p).bind fun sample =>
    (Interpolation.interpolate p trust time sample).result.toOption.map (·.motion)
  | _, empty => some []
  | _, point time m rest => Option.map₂ (⟨time, ·⟩ :: ·) (m.value p) (rest.value p)

end Values

/-- The instants of a sample. -/
def instants {τ α : Type} : {kind : Kind} → Expression τ α kind → List τ
  | _, point time _ rest => time :: rest.instants
  | _, _ => []

/-- The same expression of guarded numbers. -/
def guarded : {kind : Kind} → Expression ℝ ℝ kind → Expression Guarded Guarded kind
  | _, components q => components q.guarded
  | _, axisAngle axis angle => axisAngle axis.guarded (number angle)
  | _, rotationVector u => rotationVector u.guarded
  | _, identity => identity
  | _, compose a b => compose a.guarded b.guarded
  | _, neg a => neg a.guarded
  | _, conjugate a => conjugate a.guarded
  | _, inverse a => inverse a.guarded
  | _, rotationOf m => rotationOf m.guarded
  | _, build a rate acceleration => build a.guarded rate.guarded acceleration.guarded
  | _, rodrigues r => rodrigues r.guarded
  | _, revert m => revert m.guarded
  | _, addOffset m offset => addOffset m.guarded offset.guarded
  | _, subtractOffset m offset => subtractOffset m.guarded offset.guarded
  | _, shiftedBy m dt => shiftedBy m.guarded (number dt)
  | _, interpolate trust time s => interpolate trust (number time) s.guarded
  | _, empty => empty
  | _, point time m rest => point (number time) m.guarded rest.guarded

/-- A property of an expression and of all expressions in it. -/
def Every {τ α : Type} (P : ∀ kind, Expression τ α kind → Prop) :
    {kind : Kind} → Expression τ α kind → Prop
  | _, components q => P _ (components q)
  | _, axisAngle axis angle => P _ (axisAngle axis angle)
  | _, rotationVector u => P _ (rotationVector u)
  | _, identity => P _ identity
  | _, compose a b => P _ (compose a b) ∧ a.Every P ∧ b.Every P
  | _, neg a => P _ (neg a) ∧ a.Every P
  | _, conjugate a => P _ (conjugate a) ∧ a.Every P
  | _, inverse a => P _ (inverse a) ∧ a.Every P
  | _, rotationOf m => P _ (rotationOf m) ∧ m.Every P
  | _, build a rate acceleration => P _ (build a rate acceleration) ∧ a.Every P
  | _, rodrigues r => P _ (rodrigues r)
  | _, revert m => P _ (revert m) ∧ m.Every P
  | _, addOffset m offset => P _ (addOffset m offset) ∧ m.Every P ∧ offset.Every P
  | _, subtractOffset m offset => P _ (subtractOffset m offset) ∧ m.Every P ∧ offset.Every P
  | _, shiftedBy m dt => P _ (shiftedBy m dt) ∧ m.Every P
  | _, interpolate trust time s => P _ (interpolate trust time s) ∧ s.Every P
  | _, empty => P _ empty
  | _, point time m rest => P _ (point time m rest) ∧ m.Every P ∧ rest.Every P

/-- Components and axes are not zero, and samples are interpolated at distinct instants only. -/
def Admissible {kind : Kind} (e : Expression ℝ ℝ kind) : Prop :=
  e.Every fun
    | _, components q => q ≠ ⟨0, 0⟩
    | _, axisAngle axis _ => axis ≠ 0
    | _, interpolate _ _ s => s.instants.Nodup
    | _, _ => True

/-- Samples that are interpolated have as many points as what is trusted needs. -/
def Answered {kind : Kind} (e : Expression ℝ ℝ kind) : Prop :=
  e.Every fun
    | _, interpolate trust _ s => trust.minimumPoints ≤ s.instants.length
    | _, _ => True

end Expression

/-! ## Guarded values -/

namespace Kind

/-- The value of guarded numbers. -/
def guarded : (kind : Kind) → kind.Value ℝ ℝ → kind.Value Guarded Guarded
  | rotation => Quaternion.guarded
  | motion => Coordinates.guarded
  | sample => List.map Stamped.guarded

/-- The rotations of a value are normalized. -/
def Normalized : (kind : Kind) → kind.Value ℝ ℝ → Prop
  | rotation, q => q.Normalized
  | motion, m => m.rotation.Normalized
  | sample, s => ∀ point ∈ s, point.motion.rotation.Normalized

/-- Where there is a value it is normalized, and guarded numbers give the same. -/
def Guards (kind : Kind) (o : Option (kind.Value ℝ ℝ))
    (o' : Option (kind.Value Guarded Guarded)) : Prop :=
  ∀ v, o = some v → kind.Normalized v ∧ o' = some (kind.guarded v)

namespace Guards

variable {first second kind : Kind} {o : Option (first.Value ℝ ℝ)}
  {o' : Option (first.Value Guarded Guarded)} {u : Option (second.Value ℝ ℝ)}
  {u' : Option (second.Value Guarded Guarded)}

theorem pure {v : kind.Value ℝ ℝ} {v' : kind.Value Guarded Guarded} (hv : kind.Normalized v)
    (hguarded : v' = kind.guarded v) : kind.Guards (some v) (some v') := by
  intro w hw
  cases hw
  exact ⟨hv, congrArg some hguarded⟩

theorem map (h : first.Guards o o') {f : first.Value ℝ ℝ → kind.Value ℝ ℝ}
    {f' : first.Value Guarded Guarded → kind.Value Guarded Guarded}
    (hf : ∀ v, first.Normalized v →
      kind.Normalized (f v) ∧ f' (first.guarded v) = kind.guarded (f v)) :
    kind.Guards (o.map f) (o'.map f') := by
  intro w hw
  obtain ⟨v, rfl, rfl⟩ := Option.map_eq_some_iff.mp hw
  obtain ⟨hv, rfl⟩ := h v rfl
  obtain ⟨hnormalized, hguarded⟩ := hf v hv
  exact ⟨hnormalized, congrArg some hguarded⟩

theorem map₂ (h : first.Guards o o') (h' : second.Guards u u')
    {f : first.Value ℝ ℝ → second.Value ℝ ℝ → kind.Value ℝ ℝ}
    {f' : first.Value Guarded Guarded → second.Value Guarded Guarded → kind.Value Guarded Guarded}
    (hf : ∀ v w, first.Normalized v → second.Normalized w →
      kind.Normalized (f v w) ∧ f' (first.guarded v) (second.guarded w) = kind.guarded (f v w)) :
    kind.Guards (Option.map₂ f o u) (Option.map₂ f' o' u') := by
  intro x hx
  obtain ⟨v, w, rfl, rfl, rfl⟩ := Option.map₂_eq_some_iff.mp hx
  obtain ⟨hv, rfl⟩ := h v rfl
  obtain ⟨hw, rfl⟩ := h' w rfl
  obtain ⟨hnormalized, hguarded⟩ := hf v w hv hw
  exact ⟨hnormalized, congrArg some hguarded⟩

end Guards

end Kind

namespace Expression

variable (ε : ℝ) {kind : Kind}

theorem times_of_value : ∀ (e : Expression ℝ ℝ .sample) {sample : List (Stamped ℝ (Coordinates ℝ))},
    e.value (.exact ε) = some sample → sample.map (·.time) = e.instants
  | empty, sample, h => by
    cases h
    rfl
  | point time m rest, sample, h => by
    obtain ⟨motion, others, _, hrest, rfl⟩ := Option.map₂_eq_some_iff.mp h
    exact congrArg (time :: ·) (times_of_value rest hrest)

theorem eq_ok_of_toOption {φ β : Type} {x : Except φ β} {b : β} (h : x.toOption = some b) :
    x = .ok b := by
  cases x with
  | error fault => cases h
  | ok a =>
    cases h
    rfl

theorem value_guards (e : Expression ℝ ℝ kind) (h : e.Admissible) :
    kind.Guards (e.value (.exact ε)) (e.guarded.value (.exact (number ε))) := by
  induction e with
  | components q =>
    exact .pure (Quaternion.normalized_normalize h) (Quaternion.normalize_guarded h)
  | axisAngle axis angle =>
    exact .pure (Quaternion.normalized_turn h angle) (Quaternion.turn_guarded h angle)
  | rotationVector u => exact .pure (Quaternion.normalized_exp u) (Quaternion.exp_guarded u)
  | identity => exact .pure Quaternion.normalized_one rfl
  | compose a b iha ihb =>
    exact (iha h.2.1).map₂ (ihb h.2.2) fun _ _ hv hw =>
      ⟨hv.compose hw, Quaternion.compose_guarded hv hw⟩
  | neg a ih => exact (ih h.2).map fun _ hv => ⟨hv.neg, rfl⟩
  | conjugate a ih => exact (ih h.2).map fun _ hv => ⟨hv.conjugate, rfl⟩
  | inverse a ih => exact (ih h.2).map fun _ hv => ⟨hv.inverse, Quaternion.inverse_guarded hv⟩
  | rotationOf m ih => exact (ih h.2).map fun _ hv => ⟨hv, rfl⟩
  | build a rate acceleration ih => exact (ih h.2).map fun _ hv => ⟨hv, rfl⟩
  | rodrigues r =>
    exact .pure (Rodrigues.jet_lift r).normalized (Rodrigues.coordinates_guarded ε r)
  | revert m ih => exact (ih h.2).map fun _ hv => ⟨hv.inverse, Coordinates.revert_guarded hv⟩
  | addOffset m offset ih ih' =>
    exact (ih h.2.1).map₂ (ih' h.2.2) fun _ _ hv hw =>
      ⟨hv.compose hw, Coordinates.addOffset_guarded hv hw⟩
  | subtractOffset m offset ih ih' =>
    exact (ih h.2.1).map₂ (ih' h.2.2) fun _ _ hv hw =>
      ⟨hv.compose hw.inverse, Coordinates.subtractOffset_guarded hv hw⟩
  | shiftedBy m dt ih =>
    exact (ih h.2).map fun _ hv =>
      ⟨(Quaternion.normalized_exp _).compose hv, Coordinates.shiftedBy_guarded ε hv dt⟩
  | interpolate trust time s ih =>
    intro motion hmotion
    obtain ⟨sample, hsample, hresult⟩ := Option.bind_eq_some_iff.mp hmotion
    obtain ⟨result, hinterpolate, rfl⟩ := Option.map_eq_some_iff.mp hresult
    obtain ⟨hnormalized, hguarded⟩ := ih h.2 sample hsample
    have hnodup : (sample.map (·.time)).Nodup := times_of_value ε s hsample ▸ h.1
    have hok := eq_ok_of_toOption hinterpolate
    refine ⟨Interpolation.normalized_of_interpolate hok, ?_⟩
    rw [guarded, value, hguarded]
    change Option.map _ (Interpolation.interpolate _ trust (number time)
      (sample.map Stamped.guarded)).result.toOption = _
    rw [Interpolation.interpolate_guarded hnormalized hnodup hok]
    rfl
  | empty => exact .pure (fun _ hpoint => absurd hpoint List.not_mem_nil) rfl
  | point time m rest ih ih' =>
    refine (ih h.2.1).map₂ (ih' h.2.2) fun v w hv hw => ⟨?_, rfl⟩
    intro point hpoint
    rcases List.mem_cons.mp hpoint with rfl | hrest
    · exact hv
    · exact hw point hrest

/-- There are too few points for what is trusted. -/
theorem tooFew_iff {trust : Trust} {sample : List (Stamped ℝ (Coordinates ℝ))} :
    Interpolation.TooFew trust sample ↔ sample.length < trust.minimumPoints := by
  rw [Interpolation.TooFew, ← List.length_eq_zero_iff]
  cases trust with
  | rotation =>
    rw [Trust.minimumPoints]
    simp only [true_and]
    omega
  | rate | acceleration =>
    rw [Trust.minimumPoints]
    simp only [reduceCtorEq, false_and, or_false]
    omega

theorem isSome_interpolate_iff (time : ℝ) (trust : Trust)
    {sample : List (Stamped ℝ (Coordinates ℝ))}
    (hsample : ∀ point ∈ sample, point.motion.rotation.Normalized) :
    (Interpolation.interpolate (.exact ε) trust time sample).result.toOption.isSome
      ↔ trust.minimumPoints ≤ sample.length := by
  obtain ⟨hfault, hreaches⟩ := Interpolation.interpolate_settles ε time trust hsample
  rw [← not_lt, ← tooFew_iff]
  by_cases hfew : Interpolation.TooFew trust sample
  · have hfails : ∃ fault,
        (Interpolation.interpolate (.exact ε) trust time sample).result = .error fault := by
      rcases hfew with hempty | hsingle
      · exact ⟨_, (hfault _).mpr (.inl ⟨hempty, rfl⟩)⟩
      · exact ⟨_, (hfault _).mpr (.inr ⟨hsingle, rfl⟩)⟩
    obtain ⟨fault, hresult⟩ := hfails
    rw [hresult]
    exact iff_of_false Bool.false_ne_true (not_not_intro hfew)
  · obtain ⟨_, _, _, _, _, _, hsettled⟩ := hreaches hfew
    rw [hsettled.result]
    exact iff_of_true rfl hfew

theorem isSome_map_iff {β γ : Type} {o : Option β} {Q : Prop} (h : o.isSome ↔ Q) (f : β → γ) :
    (o.map f).isSome ↔ True ∧ Q := by
  rw [Option.isSome_map, h, true_and]

theorem isSome_map₂_iff {β γ δ : Type} {o : Option β} {u : Option γ} {Q R : Prop}
    (h : o.isSome ↔ Q) (h' : u.isSome ↔ R) (f : β → γ → δ) :
    (Option.map₂ f o u).isSome ↔ True ∧ Q ∧ R := by
  rw [← h, ← h']
  cases o <;> cases u <;> simp

/-- An admissible expression has a value exactly if its samples have enough points. -/
theorem isSome_value_iff (e : Expression ℝ ℝ kind) (h : e.Admissible) :
    (e.value (.exact ε)).isSome ↔ e.Answered := by
  induction e with
  | components q => exact iff_of_true rfl trivial
  | axisAngle axis angle => exact iff_of_true rfl trivial
  | rotationVector u => exact iff_of_true rfl trivial
  | identity => exact iff_of_true rfl trivial
  | compose a b iha ihb => exact isSome_map₂_iff (iha h.2.1) (ihb h.2.2) _
  | neg a ih => exact isSome_map_iff (ih h.2) _
  | conjugate a ih => exact isSome_map_iff (ih h.2) _
  | inverse a ih => exact isSome_map_iff (ih h.2) _
  | rotationOf m ih => exact isSome_map_iff (ih h.2) _
  | build a rate acceleration ih => exact isSome_map_iff (ih h.2) _
  | rodrigues r => exact iff_of_true rfl trivial
  | revert m ih => exact isSome_map_iff (ih h.2) _
  | addOffset m offset ih ih' => exact isSome_map₂_iff (ih h.2.1) (ih' h.2.2) _
  | subtractOffset m offset ih ih' => exact isSome_map₂_iff (ih h.2.1) (ih' h.2.2) _
  | shiftedBy m dt ih => exact isSome_map_iff (ih h.2) _
  | interpolate trust time s ih =>
    have hsample := ih h.2
    rw [value]
    match hvalue : s.value (.exact ε) with
    | none =>
      rw [hvalue] at hsample
      exact iff_of_false Bool.false_ne_true fun hanswered =>
        Bool.false_ne_true (hsample.mpr hanswered.2)
    | some sample =>
      rw [hvalue] at hsample
      obtain ⟨hnormalized, _⟩ := value_guards ε s h.2 sample hvalue
      have hlength : sample.length = s.instants.length := by
        rw [← times_of_value ε s hvalue, List.length_map]
      have hinterpolate := isSome_interpolate_iff ε time trust hnormalized
      rw [hlength, ← Option.isSome_map] at hinterpolate
      refine hinterpolate.trans ⟨fun henough => ⟨henough, hsample.mp rfl⟩, fun h => h.1⟩
  | empty => exact iff_of_true rfl trivial
  | point time m rest ih ih' => exact isSome_map₂_iff (ih h.2.1) (ih' h.2.2) _

/-- Every rotation that an admissible expression stands for is normalized, and in its value nothing
was divided by zero. There is one if the samples that are interpolated have enough points. -/
theorem normSq_value (e : Expression ℝ ℝ .rotation) (h : e.Admissible) :
    (∀ q, e.value (.exact ε) = some q →
        q.normSq = 1 ∧ e.guarded.value (.exact (number ε)) = some q.guarded)
      ∧ ((∃ q, e.value (.exact ε) = some q) ↔ e.Answered) := by
  refine ⟨value_guards ε e h, ?_⟩
  rw [← Option.isSome_iff_exists]
  exact isSome_value_iff ε e h

/-- A rotation that is interpolated between two motions, moved on and turned back. -/
noncomputable def excursion : Expression ℝ ℝ .rotation :=
  let start := build (components ⟨1, ⟨-1, 0, 0⟩⟩) ⟨0, 0, 1⟩ 0
  let finish := revert (rodrigues ⟨⟨1, -1, 0⟩, 0, 0⟩)
  let between := interpolate .rotation 0 (point (-1) start (point 1 finish empty))
  compose (rotationOf (shiftedBy between 1)) (inverse (axisAngle ⟨1, 1, 0⟩ 1))

theorem normSq_excursion :
    ∃ q, excursion.value (.exact 0) = some q ∧ q.normSq = 1
      ∧ excursion.guarded.value (.exact (number 0)) = some q.guarded := by
  have hadmissible : excursion.Admissible := by
    norm_num [excursion, Admissible, Every, instants, Quaternion.ext_iff, Vec3.ext_iff]
  have hanswered : excursion.Answered := by
    simp [excursion, Answered, Every, instants, Trust.minimumPoints]
  obtain ⟨hvalue, hexists⟩ := normSq_value 0 excursion hadmissible
  obtain ⟨q, hq⟩ := hexists.mpr hanswered
  exact ⟨q, hq, hvalue q hq⟩

end Expression

end AngularMotion
