import Arbor.Proofs.Camera.Samples
import Arbor.Proofs.Scalar.Magnitude

/-! Which flights have a path at machine numbers. Without a sensible number of laps a flight has no
orbit, and its path has a single step for it. With infinitely many laps it has none either, but the
steps are counted from the laps, and then there are more of them than can be counted. -/

namespace Arbor.Flight

open Machine (Spans)

/-- Whether a flight has more laps than any number. -/
def IsEndless {α : Type} [Scalar α] (flight : Flight α) : Prop :=
  0.0 < flight.laps ∧ Scalar.isFinite flight.laps = false

variable {flight : Flight Float32} {samples : ℕ}

/-! ### Counting steps -/

theorem orbitSteps_eq_ceilNat : flight.orbitSteps samples =
    max 1 (Scalar.ceilNat ((max 1 samples : ℕ) * Scalar.maxNum flight.laps 0.0)) := rfl

/-- A million samples to a lap fit into twenty binary digits, with room for a rounding. -/
theorem spans_samples (h : samples ≤ 1000000) :
    Spans 1 23 ((max 1 samples : ℕ) : Float32).toModel.unpack := by
  have hpos : 0 < max 1 samples := le_max_left 1 samples
  have hsmall : (max 1 samples).log2 < 20 := (Nat.log2_lt hpos.ne').2 (by omega)
  exact (Machine.spans_natCast hpos (by omega)).mono (by omega) (by omega)

/-- No laps, fewer or what is no number make a single step. -/
theorem orbitSteps_of_not_pos (hsamples : samples ≤ 1000000) (hlaps : ¬0.0 < flight.laps) :
    flight.orbitSteps samples = 1 := by
  obtain ⟨s, hzero⟩ := Machine.unpack_maxNum_zero hlaps
  obtain ⟨s', hproduct⟩ := Machine.mul_of_zero (spans_samples hsamples) hzero
  rw [orbitSteps_eq_ceilNat, Machine.ceilNat_of_zero hproduct]
  rfl

theorem spans_million : Spans 20 20 (1000000.0 : Float32).toModel.unpack :=
  ⟨16000000, -4, by decide, rfl, Machine.canonical_iff.2 (by decide), by decide, by decide⟩

/-- A million laps of a million samples each are fewer than `2 ^ 44` steps, however they are
rounded. -/
theorem orbitSteps_le (hsamples : samples ≤ 1000000) (hpos : 0.0 < flight.laps)
    (hlaps : flight.laps ≤ 1000000.0) : flight.orbitSteps samples ≤ 2 ^ 44 := by
  have hproduct := Machine.spans_mul (spans_samples hsamples) (spans_million.of_le hpos hlaps)
    (by decide) (by decide)
  have hceil := Machine.ceilNat_le hproduct (by decide)
  rw [orbitSteps_eq_ceilNat, Machine.maxNum_zero_of_pos hpos]
  exact max_le (by decide) hceil

/-- The only positive number that is not finite is the positive infinity. -/
theorem IsEndless.unpack_laps (h : flight.IsEndless) :
    flight.laps.toModel.unpack = .infinity .positive := by
  obtain ⟨hfinite, -⟩ | ⟨-, hinfinite⟩ := Machine.finite_or_infinite_of_pos h.1
  · exact absurd (h.2.symm.trans hfinite) Bool.false_ne_true
  · exact hinfinite

/-- Infinitely many laps make as many steps as can be counted. -/
theorem IsEndless.orbitSteps_eq (h : flight.IsEndless) (hsamples : samples ≤ 1000000) :
    flight.orbitSteps samples = maxNat64 := by
  have hproduct := Machine.mul_of_infinity (spans_samples hsamples) h.unpack_laps
  rw [orbitSteps_eq_ceilNat, Machine.maxNum_zero_of_pos h.1,
    Machine.ceilNat_of_infinity hproduct]
  rfl

theorem spans_lap : Spans 3 3 (lap : Float32).toModel.unpack :=
  ⟨13176795, -21, by decide, rfl, Machine.canonical_iff.2 (by decide), by decide, by decide⟩

/-- An orbit that would never end is left out. -/
theorem IsEndless.orbitDuration_eq (h : flight.IsEndless) : flight.orbitDuration = 0.0 := by
  have hduration : Scalar.isFinite (flight.laps * lap / flight.speed) = false :=
    Machine.isFinite_infinity_div (Machine.infinity_mul h.unpack_laps spans_lap)
  exact if_neg fun h => absurd (hduration.symm.trans h.2.2) Bool.false_ne_true

/-- Without endless laps the points of a path are few enough to be counted. -/
theorem pointCount_le (hsamples : samples ≤ 1000000)
    (hlaps : Scalar.isFinite flight.laps = true → flight.laps ≤ 1000000.0)
    (h : ¬flight.IsEndless) : flight.pointCount samples ≤ 2 ^ 45 := by
  have hsteps : flight.orbitSteps samples ≤ 2 ^ 44 := by
    by_cases hpos : 0.0 < flight.laps
    · have hfinite : Scalar.isFinite flight.laps = true :=
        Bool.eq_true_of_not_eq_false fun hinfinite => h ⟨hpos, hinfinite⟩
      exact orbitSteps_le hsamples hpos (hlaps hfinite)
    · rw [orbitSteps_of_not_pos hsamples hpos]
      decide
  rw [pointCount, approachSteps]
  omega

/-- With as many samples and laps as a flight can sensibly have, its path is drawn, whatever its
speed, its approach and its laps are, no numbers included. The one exception is a flight with
infinitely many laps. It counts as having no orbit, and still the points of its path are more than
can be counted. -/
theorem path?_eq_ok_iff_not_endless (flight : Flight Float32) (nest : Nest Float32)
    (platform : Platform Float32) {samples : ℕ} (hsamples : samples ≤ 1000000)
    (hlaps : Scalar.isFinite flight.laps = true → flight.laps ≤ 1000000.0) :
    (flight.path? nest platform samples = .ok (flight.path nest platform samples) ↔
      ¬flight.IsEndless) ∧
    (flight.IsEndless → flight.orbitDuration = 0.0 ∧
      flight.path? nest platform samples = .error .uncountable) := by
  have huncountable (h : flight.IsEndless) : maxNat64 < flight.pointCount samples := by
    rw [pointCount, h.orbitSteps_eq hsamples]
    omega
  refine ⟨⟨fun hdrawn h => ?_, fun h => ?_⟩, fun h => ⟨h.orbitDuration_eq, ?_⟩⟩
  · have hcount := (path?_eq_ok_iff flight nest platform samples).1 hdrawn
    exact absurd ((huncountable h).trans_le hcount) (by decide)
  · rw [path?_eq_ok_iff]
    exact (pointCount_le hsamples hlaps h).trans (by decide)
  · exact (path?_eq_uncountable_iff flight nest platform samples).2 (huncountable h)

def roost : Nest Float32 where
  parent := 0
  position := ⟨1.0, 5.0, -2.0⟩
  radius := 1.0
  up := .unitY
  orientation := .identity
  anchors := []
  nearView := 1.5
  farView := 5.0
  depth := 0.3

/-- As many samples and laps as there can be. -/
theorem longest_path_drawn :
    (Scalar.isFinite (1000000.0 : Float32) = true → (1000000.0 : Float32) ≤ 1000000.0) ∧
      ¬IsEndless (⟨0.15, 1000000.0, 4.0⟩ : Flight Float32) ∧
      path? ⟨0.15, 1000000.0, 4.0⟩ roost .fallback 1000000 =
        .ok (path ⟨0.15, 1000000.0, 4.0⟩ roost .fallback 1000000) := by
  have hlaps : (1000000.0 : Float32) ≤ 1000000.0 := by decide +kernel
  have hfinite : ¬IsEndless (⟨0.15, 1000000.0, 4.0⟩ : Flight Float32) :=
    fun h => absurd h.2 (by decide +kernel)
  have hdrawn := path?_eq_ok_iff_not_endless ⟨0.15, 1000000.0, 4.0⟩ roost .fallback le_rfl
    fun _ => hlaps
  exact ⟨fun _ => hlaps, hfinite, hdrawn.1.2 hfinite⟩

def endless : Flight Float32 := ⟨0.7, 1.0 / 0.0, 2.0⟩

/-- Four samples to a lap are too many where there is no end to the laps. -/
theorem endless_path_uncountable :
    endless.orbitDuration = 0.0 ∧ maxNat64 < endless.pointCount 4 ∧
      path? endless roost .fallback 4 = .error .uncountable := by
  have hcount : maxNat64 < endless.pointCount 4 := by decide +kernel
  exact ⟨by decide +kernel, hcount, (path?_eq_uncountable_iff endless roost .fallback 4).2 hcount⟩

end Arbor.Flight
