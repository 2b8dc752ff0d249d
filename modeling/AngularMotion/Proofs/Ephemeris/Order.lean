import AngularMotion.Number.Word
import AngularMotion.Proofs.Ephemeris.Window
import AngularMotion.Proofs.Time.Line

/-!
# Samples in any order

The order of a sample does not matter (`build_of_perm`): all of its permutations are refused for the
same reason, or give tables with the same entries, from the earliest instant to the latest one, and
with the same answers to all queries.
-/

namespace AngularMotion.Ephemeris

open Chronology

variable {τ κ : Type} [LinearOrder κ] {key : τ → κ} {trust : Trust} {points : Count}

section Build

variable {μ : Type} [Chronology τ] [OrderAligns τ] {sample others : List (Stamped τ μ)}

/-- At instants with different keys a table is built exactly if its windows are large enough for
what is trusted and no larger than the sample. -/
theorem exists_build_iff (hordered : OrderedBy key (sample.map (·.time)))
    (hdistinct : (sample.map fun entry => key entry.time).Nodup) :
    (∃ e, build trust points sample = .ok e) ↔
      trust.minimumPoints ≤ points.value ∧ points.value ≤ sample.length := by
  obtain ⟨entries, hsort, hperm, _⟩ := sort_distinct hordered hdistinct
  rw [exists_build_of_sort hsort, hperm.length_eq]

/-- The entries of a table are the sample from the earliest instant to the latest one. -/
theorem entries_of_build (hordered : OrderedBy key (sample.map (·.time)))
    (hdistinct : (sample.map fun entry => key entry.time).Nodup) {e : Ephemeris τ μ}
    (hbuilt : build trust points sample = .ok e) :
    e.entries.Perm sample ∧ e.entries.Pairwise fun a b => key a.time < key b.time := by
  obtain ⟨entries, hsort, hperm, hstrict⟩ := sort_distinct hordered hdistinct
  obtain ⟨_, rfl⟩ := eq_of_build hsort hbuilt
  exact ⟨hperm, hstrict⟩

/-- A table does not depend on the order of its sample. -/
theorem build_eq_of_perm (hordered : OrderedBy key (sample.map (·.time)))
    (hdistinct : (sample.map fun entry => key entry.time).Nodup) (hperm : others.Perm sample) :
    build trust points others = build trust points sample := by
  rw [build, build, sort_perm hordered hdistinct hperm]

end Build

section Queries

variable {α : Type} [Timeline τ α] [OrderAligns τ] [Elementary α] [Storable α] [Zero α] [One α]
  [Add α] [Sub α] [Mul α] [Neg α] [Div α] [NatCast α] [OfNat α 2] [OfNat α 4] [OfScientific α]
  [LT α] [DecidableLT α] {sample others : List (Stamped τ (Coordinates α))}

/-- Samples of the same entries are refused for the same reason, or their tables have the same
entries, each entry of the sample once and in the strict order of time, and give the same answers. -/
theorem build_of_perm (p : Working α) (trust : Trust) (points : Count)
    (hordered : OrderedBy key (sample.map (·.time)))
    (hdistinct : (sample.map fun entry => key entry.time).Nodup) (hperm : others.Perm sample) :
    build trust points others = build trust points sample
      ∧ ((∃ e, build trust points sample = .ok e) ↔
        trust.minimumPoints ≤ points.value ∧ points.value ≤ sample.length)
      ∧ ∀ e f, build trust points sample = .ok e → build trust points others = .ok f →
        e.entries.Perm sample ∧ (e.entries.Pairwise fun a b => key a.time < key b.time)
          ∧ f.entries = e.entries
          ∧ ∀ time, f.neighbors time = e.neighbors time
            ∧ f.interpolate p time = e.interpolate p time := by
  have hsame : build trust points others = build trust points sample :=
    build_eq_of_perm hordered hdistinct hperm
  refine ⟨hsame, exists_build_iff hordered hdistinct, ?_⟩
  intro e f hbuilt hothers
  obtain ⟨hentries, hstrict⟩ := entries_of_build hordered hdistinct hbuilt
  obtain rfl : f = e := Except.ok.inj (hothers.symm.trans (hsame.trans hbuilt))
  exact ⟨hentries, hstrict, rfl, fun time => ⟨rfl, rfl⟩⟩

end Queries

/-- Three days that are not in the order of the calendar. -/
def threeDays : List (Stamped Instant (Coordinates Scalar)) :=
  [⟨.day ⟨3, by decide⟩, .identity Setup.double.working⟩,
    ⟨.day ⟨1, by decide⟩, .identity Setup.double.working⟩,
    ⟨.day ⟨2, by decide⟩, .identity Setup.double.working⟩]

/-- The number of a day. -/
def dayNumber : Instant → Nat
  | .day d => d.number
  | _ => 0

/-- Three days in any order have one table, in the order of the calendar. -/
theorem threeDays_order :
    ∃ e, build .rotation (.number 2) threeDays = .ok e
      ∧ build .rotation (.number 2) threeDays.reverse = .ok e
      ∧ e.entries.map (fun entry => dayNumber entry.time) = [1, 2, 3] := by
  have hordered : OrderedBy dayNumber (threeDays.map (·.time)) := by
    intro a ha b hb
    simp only [threeDays, List.map_cons, List.map_nil, List.mem_cons, List.not_mem_nil,
      or_false] at ha hb
    rcases ha with rfl | rfl | rfl <;> rcases hb with rfl | rfl | rfl <;> rfl
  have hdistinct : (threeDays.map fun entry => dayNumber entry.time).Nodup := by decide
  obtain ⟨hsame, hbuilds, htables⟩ := build_of_perm Setup.double.working .rotation (.number 2)
    hordered hdistinct threeDays.reverse_perm
  obtain ⟨e, hbuilt⟩ := hbuilds.mpr (by decide)
  obtain ⟨hperm, hstrict, _⟩ := htables e e hbuilt (hsame.trans hbuilt)
  refine ⟨e, hbuilt, hsame.trans hbuilt, ?_⟩
  have hnumbers : (threeDays.map fun entry => dayNumber entry.time).Perm [1, 2, 3] := by decide
  exact ((hperm.map _).trans hnumbers).eq_of_pairwise (fun _ _ _ _ hlt hgt => absurd hgt hlt.asymm)
    (List.pairwise_map.mpr hstrict) (by decide)

end AngularMotion.Ephemeris
