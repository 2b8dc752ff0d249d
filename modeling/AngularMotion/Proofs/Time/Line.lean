import AngularMotion.Proofs.Ephemeris.Search
import AngularMotion.Time.Instant

/-!
# Instants on a line

Where one instant is before another, both lie on one line (`line?_eq_of_before`): what is not a number
is before nothing, and instants of different kinds are not compared. So instants that are ordered by
different keys lie on one line.
-/

namespace AngularMotion

/-! ## What is not a number -/

theorem unpack_of_isNaN {x : Float} (h : x.isNaN = true) : x.toModel.unpack = .notANumber := by
  have hunpack : x.toModel.unpack.isNaN = true := h
  cases hvalue : x.toModel.unpack with
  | notANumber => rfl
  | infinity | zero | finite =>
    rw [hvalue] at hunpack
    cases hunpack

/-- Nothing but numbers is less than anything, or greater. -/
theorem isNaN_of_lt {x y : Float} (h : x < y) : x.isNaN = false ∧ y.isNaN = false := by
  have hless : (x.toModel.unpack.compare y.toModel.unpack == some .lt) = true :=
    of_decide_eq_true h
  constructor
  · by_contra hx
    have hnone := unpack_of_isNaN (by simpa using hx : x.isNaN = true)
    rw [hnone] at hless
    cases hless
  · by_contra hy
    have hnone := unpack_of_isNaN (by simpa using hy : y.isNaN = true)
    rw [hnone] at hless
    cases hvalue : x.toModel.unpack <;> rw [hvalue] at hless <;> cases hless

section Formats

open Float.Model Float.Model.UnpackedFloat

/-- Bits without a number have the largest exponent, and a mantissa. -/
theorem components_of_unpack {bits : BitVec Format.binary64.numBits}
    (h : UnpackedFloat.unpack Format.binary64 bits = .notANumber) :
    unpackExponent bits = -1#_ ∧ unpackMantissa bits ≠ 0#_ := by
  by_cases hlargest : unpackExponent bits = -1#_
  · refine ⟨hlargest, fun hmantissa => ?_⟩
    have hinfinity : UnpackedFloat.unpack Format.binary64 bits = .infinity _ :=
      (if_pos hlargest).trans (if_pos hmantissa)
    rw [hinfinity] at h
    cases h
  · by_cases hleast : unpackExponent bits = 0#_
    · by_cases hmantissa : unpackMantissa bits = 0#_
      · have hzero : UnpackedFloat.unpack Format.binary64 bits = .zero _ :=
          (if_neg hlargest).trans ((if_pos hleast).trans (dif_pos hmantissa))
        rw [hzero] at h
        cases h
      · have hfinite : UnpackedFloat.unpack Format.binary64 bits = .finite _ _ _ _ :=
          (if_neg hlargest).trans ((if_pos hleast).trans (dif_neg hmantissa))
        rw [hfinite] at h
        cases h
    · have hfinite : UnpackedFloat.unpack Format.binary64 bits = .finite _ _ _ _ :=
        (if_neg hlargest).trans (if_neg hleast)
      rw [hfinite] at h
      cases h

/-- There is one machine number that is not a number. -/
theorem toBits_of_isNaN {x : Float} (h : x.isNaN = true) : x.toBits.toNat = 0x7ff8000000000000 := by
  obtain ⟨hlargest, hmantissa⟩ := components_of_unpack (unpack_of_isNaN h)
  exact congrArg BitVec.toNat (x.toModel.valid.eq_packedNaN hlargest hmantissa)

end Formats

theorem Binary.ofFloat_of_isNaN {x : Float} (h : x.isNaN = true) : ofFloat x = .notANumber := by
  simp only [ofFloat, toBits_of_isNaN h]
  decide

namespace Quantity

theorem isNaN_of_compareFloat {n : Int} {x : Float} {o : Ordering} (h : compareFloat n x = some o) :
    x.isNaN = false := by
  by_contra hx
  rw [compareFloat, Binary.ofFloat_of_isNaN (by simpa using hx)] at h
  cases h

theorem isNaN_of_compare {p q : Quantity} (h : p.compare? q = some .lt) :
    p.isNaN = false ∧ q.isNaN = false := by
  cases p with
  | real x =>
    cases q with
    | real y =>
      simp only [compare?] at h
      split at h
      · rename_i hless
        exact isNaN_of_lt hless
      · split at h
        · cases h
        · split at h <;> cases h
    | whole | truth =>
      obtain ⟨o, ho, _⟩ := Option.map_eq_some_iff.mp h
      exact ⟨isNaN_of_compareFloat ho, rfl⟩
  | whole | truth =>
    cases q with
    | real y => exact ⟨rfl, isNaN_of_compareFloat h⟩
    | whole | truth => exact ⟨rfl, rfl⟩

end Quantity

/-! ## Lines -/

namespace Instant

open Chronology

/-- Only instants on one line are before each other. -/
theorem line?_eq_of_before {a b : Instant} (h : before a b = .ok true) :
    a.line?.isSome = true ∧ a.line? = b.line? := by
  -- Instants of different kinds are not compared.
  cases a <;> cases b <;> try cases h
  case seconds.seconds p q =>
    have hany : (p.compare? q).any (· == .lt) = true := Except.ok.inj h
    have hless : p.compare? q = some .lt := by
      cases hvalue : p.compare? q with
      | none => simp [hvalue] at hany
      | some o => simpa [hvalue] using hany
    obtain ⟨hp, hq⟩ := Quantity.isNaN_of_compare hless
    simp [line?, hp, hq]
  case moment.moment m n =>
    have hoffsets : m.offset.isSome = n.offset.isSome := by
      by_contra hmixed
      have hfault : before (moment m) (moment n) = .error .mixedComparison := if_neg hmixed
      rw [hfault] at h
      cases h
    simp [line?, hoffsets]
  case day.day => exact ⟨rfl, rfl⟩
  case label.label => exact ⟨rfl, rfl⟩

/-- Of two instants with different keys one is before the other. -/
theorem line?_eq_of_ordered {κ : Type} [LinearOrder κ] {key : Instant → κ}
    {instants : List Instant} (hordered : OrderedBy key instants) {a b : Instant}
    (ha : a ∈ instants) (hb : b ∈ instants) (hne : key a ≠ key b) :
    a.line?.isSome = true ∧ a.line? = b.line? := by
  rcases lt_or_gt_of_ne hne with hlt | hgt
  · refine line?_eq_of_before ?_
    rw [hordered a ha b hb, decide_eq_true hlt]
  · have hlines : b.line?.isSome = true ∧ b.line? = a.line? := by
      refine line?_eq_of_before ?_
      rw [hordered b hb a ha, decide_eq_true hgt]
    exact ⟨hlines.2 ▸ hlines.1, hlines.2.symm⟩

instance : OrderAligns Instant where
  aligned_of_ordered := by
    intro κ _ key instants hordered hdistinct hlength
    match instants with
    | a :: b :: rest =>
      have hfirst : ∀ c ∈ b :: rest, a.line?.isSome = true ∧ a.line? = c.line? := by
        intro c hc
        refine line?_eq_of_ordered hordered List.mem_cons_self (List.mem_cons_of_mem a hc) ?_
        have hnew := (List.nodup_cons.mp hdistinct).1
        exact fun hsame => hnew (hsame ▸ List.mem_map_of_mem hc)
      have hlines : (b :: rest).all (·.line? = a.line?) = true :=
        List.all_eq_true.mpr fun c hc => decide_eq_true (hfirst c hc).2.symm
      exact Bool.and_eq_true_iff.mpr ⟨(hfirst b List.mem_cons_self).1, hlines⟩

end Instant

end AngularMotion
