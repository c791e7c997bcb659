import Mathlib.Analysis.Real.Sqrt
import Mathlib.Order.Interval.Set.Basic
import Mathlib.Tactic.FieldSimp
import Arbor.Proofs.Index.Block
import Arbor.Proofs.Index.Contents

/-! The cells of a branch in exact arithmetic. Its axis is sampled so densely that each of its
points has a sample less than half a cell away, so whoever comes within half a cell of the axis
finds a sample in a cell next to its own. -/

namespace Arbor

open Scalar (floorInt32)

namespace Branch

variable {size : ℝ} {branch : Branch ℝ} {cell : Cell}

noncomputable def cellAt (size : ℝ) (branch : Branch ℝ) (t : ℝ) : Cell :=
  Cell.ofPoint size (branch.base.lerp branch.tip t)

noncomputable def sampleSteps (size : ℝ) (branch : Branch ℝ) : ℕ :=
  Scalar.ceilNat (branch.length / size) + 1

theorem sampleSteps_pos (size : ℝ) (branch : Branch ℝ) : (0 : ℝ) < branch.sampleSteps size :=
  Nat.cast_pos.2 (Nat.succ_pos _)

/-- Samples are points of the axis between its ends. -/
theorem sample_mem {i : ℕ} (hi : i ≤ branch.sampleSteps size) :
    (i : ℝ) / branch.sampleSteps size ∈ Set.Icc (0 : ℝ) 1 := by
  constructor
  · positivity
  · rw [div_le_one (sampleSteps_pos size branch)]
    exact Nat.cast_le.2 hi

/-- The samples of a branch are less than a cell's size apart. -/
theorem length_lt_mul_sampleSteps (hsize : 0 < size) (branch : Branch ℝ) :
    branch.length < size * branch.sampleSteps size := by
  rw [sampleSteps, Scalar.ceilNat_real, Nat.cast_add_one, mul_add, mul_one]
  have hceil : branch.length / size ≤ ⌈branch.length / size⌉₊ := Nat.le_ceil _
  rw [div_le_iff₀ hsize] at hceil
  linarith

theorem cellAt_zero (size : ℝ) (branch : Branch ℝ) :
    branch.cellAt size 0 = Cell.ofPoint size branch.base := by
  rw [cellAt, Vector3.lerp_zero]

theorem cellAt_one (size : ℝ) (branch : Branch ℝ) :
    branch.cellAt size 1 = Cell.ofPoint size branch.tip := by
  rw [cellAt, Vector3.lerp_one]

/-- Along each axis of space the cells of a branch follow each other in one direction. -/
theorem floorInt32_between (hsize : 0 < size) (a d : ℝ) {t t₁ t₂ : ℝ} (h₁ : t₁ ≤ t) (h₂ : t ≤ t₂) :
    (floorInt32 ((a + d * t₁) / size) ≤ floorInt32 ((a + d * t) / size) ∧
        floorInt32 ((a + d * t) / size) ≤ floorInt32 ((a + d * t₂) / size)) ∨
      (floorInt32 ((a + d * t₂) / size) ≤ floorInt32 ((a + d * t) / size) ∧
        floorInt32 ((a + d * t) / size) ≤ floorInt32 ((a + d * t₁) / size)) := by
  have hmono {x y : ℝ} (hxy : x ≤ y) :
      floorInt32 ((a + x) / size) ≤ floorInt32 ((a + y) / size) :=
    Scalar.floorInt32_mono (div_le_div_of_nonneg_right (by linarith) hsize.le)
  rcases le_total 0 d with hd | hd
  · exact Or.inl ⟨hmono (mul_le_mul_of_nonneg_left h₁ hd), hmono (mul_le_mul_of_nonneg_left h₂ hd)⟩
  · exact Or.inr ⟨hmono (mul_le_mul_of_nonpos_left h₂ hd), hmono (mul_le_mul_of_nonpos_left h₁ hd)⟩

/-- The cell at a ratio of the length, along each axis of space on its own. -/
theorem cellAt_eq (size : ℝ) (branch : Branch ℝ) (t : ℝ) :
    branch.cellAt size t =
      ⟨floorInt32 ((branch.base.x + (branch.tip.x - branch.base.x) * t) / size),
        floorInt32 ((branch.base.y + (branch.tip.y - branch.base.y) * t) / size),
        floorInt32 ((branch.base.z + (branch.tip.z - branch.base.z) * t) / size)⟩ := by
  rw [cellAt, Vector3.lerp_real]
  rfl

/-- What lies on the axis between two points of a cell lies in that cell. -/
theorem cellAt_between (hsize : 0 < size) {t t₁ t₂ : ℝ} (h₁ : t₁ ≤ t) (h₂ : t ≤ t₂)
    (hcell₁ : branch.cellAt size t₁ = cell) (hcell₂ : branch.cellAt size t₂ = cell) :
    branch.cellAt size t = cell := by
  subst hcell₁
  rw [cellAt_eq, cellAt_eq, Cell.mk.injEq] at hcell₂ ⊢
  have hx := floorInt32_between hsize branch.base.x (branch.tip.x - branch.base.x) h₁ h₂
  have hy := floorInt32_between hsize branch.base.y (branch.tip.y - branch.base.y) h₁ h₂
  have hz := floorInt32_between hsize branch.base.z (branch.tip.z - branch.base.z) h₁ h₂
  omega

/-- A branch is stored in the cells of its samples, also if all of it lies in one cell. -/
theorem mem_ofBranch_iff (hsize : 0 < size) :
    cell ∈ Cell.ofBranch size branch ↔
      ∃ i ≤ branch.sampleSteps size,
        branch.cellAt size ((i : ℝ) / branch.sampleSteps size) = cell := by
  by_cases hsame : Cell.ofPoint size branch.base = Cell.ofPoint size branch.tip
  · rw [Cell.ofBranch, if_pos hsame, List.mem_singleton]
    -- Both ends are in one cell, and so is all that lies between them.
    have hall (t : ℝ) (ht : t ∈ Set.Icc (0 : ℝ) 1) :
        branch.cellAt size t = Cell.ofPoint size branch.base :=
      cellAt_between hsize ht.1 ht.2 (cellAt_zero size branch)
        ((cellAt_one size branch).trans hsame.symm)
    constructor
    · intro hcell
      exact ⟨0, Nat.zero_le _, (hall _ (sample_mem (Nat.zero_le _))).trans hcell.symm⟩
    · rintro ⟨i, hi, hcell⟩
      exact hcell.symm.trans (hall _ (sample_mem hi))
  · rw [Cell.ofBranch, if_neg hsame, if_neg (by simp), mem_eraseReps, List.mem_map]
    apply exists_congr
    intro i
    rw [List.mem_range, Nat.lt_succ_iff]
    rfl

theorem ofPoint_base_mem_ofBranch (hsize : 0 < size) (branch : Branch ℝ) :
    Cell.ofPoint size branch.base ∈ Cell.ofBranch size branch := by
  refine (mem_ofBranch_iff hsize).2 ⟨0, Nat.zero_le _, ?_⟩
  rw [Nat.cast_zero, zero_div, cellAt_zero]

theorem ofPoint_tip_mem_ofBranch (hsize : 0 < size) (branch : Branch ℝ) :
    Cell.ofPoint size branch.tip ∈ Cell.ofBranch size branch := by
  refine (mem_ofBranch_iff hsize).2 ⟨branch.sampleSteps size, le_rfl, ?_⟩
  rw [div_self (sampleSteps_pos size branch).ne', cellAt_one]

/-- Every ratio has a sample at most half a step away, the one it is rounded to. -/
theorem exists_ratio_near {t : ℝ} (ht : 0 ≤ t) (ht' : t ≤ 1) {steps : ℕ} (hsteps : 0 < steps) :
    ∃ i ≤ steps, |t - i / steps| ≤ 1 / (2 * steps) := by
  have hpos : (0 : ℝ) < steps := Nat.cast_pos.2 hsteps
  have hnonneg : 0 ≤ t * steps + 1 / 2 := by positivity
  -- The ratio in steps, rounded to the nearest.
  refine ⟨⌊t * steps + 1 / 2⌋₊, ?_, ?_⟩
  · have hlt : t * steps + 1 / 2 < (steps + 1 : ℕ) := by
      push_cast
      nlinarith
    exact Nat.lt_succ_iff.1 ((Nat.floor_lt hnonneg).2 hlt)
  · have hlower := Nat.floor_le hnonneg
    have hupper := Nat.lt_floor_add_one (t * steps + 1 / 2)
    generalize (⌊t * steps + 1 / 2⌋₊ : ℝ) = i at hlower hupper
    have hscaled : |t * steps - i| ≤ 1 / 2 := by
      rw [abs_le]
      constructor <;> linarith
    have hdiff : t - i / steps = (t * steps - i) / steps := by
      field_simp
    rw [hdiff, abs_div, abs_of_pos hpos, div_le_div_iff₀ hpos (by positivity)]
    calc |t * steps - i| * (2 * steps) ≤ 1 / 2 * (2 * steps) :=
          mul_le_mul_of_nonneg_right hscaled (by positivity)
      _ = 1 * steps := by ring

/-- Each point of a branch's axis is near, along each axis, to a sample in one of its cells. -/
theorem exists_sample_near (hsize : 0 < size) (branch : Branch ℝ) {t : ℝ} (ht : 0 ≤ t)
    (ht' : t ≤ 1) :
    ∃ sample, Cell.ofPoint size sample ∈ Cell.ofBranch size branch ∧
      ∃ r < size / 2, (branch.base.lerp branch.tip t).Within sample r := by
  have hpos := sampleSteps_pos size branch
  have hlength := length_lt_mul_sampleSteps hsize branch
  obtain ⟨i, hi, hnear⟩ := exists_ratio_near ht ht' (Nat.cast_pos.1 hpos)
  refine ⟨branch.base.lerp branch.tip ((i : ℝ) / branch.sampleSteps size),
    (mem_ofBranch_iff hsize).2 ⟨i, hi, rfl⟩, _, ?_, Vector3.within_lerp branch.base branch.tip t _⟩
  generalize (branch.sampleSteps size : ℝ) = steps at hpos hlength hnear
  calc branch.length * |t - i / steps| ≤ branch.length * (1 / (2 * steps)) :=
        mul_le_mul_of_nonneg_left hnear (Vector3.distance_nonneg _ _)
    _ = branch.length / steps / 2 := by field_simp
    _ < size / 2 := by
      refine div_lt_div_of_pos_right ?_ two_pos
      rwa [div_lt_iff₀ hpos]

end Branch

/-- Whoever is at most half a cell away from a branch has one of its cells next to its own. -/
theorem Cell.exists_cell_near {size : ℝ} (hsize : 0 < size) (branch : Branch ℝ) {p : Vector3 ℝ}
    (hp : p.distance (Projection.onto p branch.base branch.tip).point ≤ size / 2) :
    ∃ cell ∈ (ofPoint size p).block 1, cell ∈ ofBranch size branch := by
  obtain ⟨ht, ht'⟩ := Projection.ratio_mem p branch.base branch.tip
  rw [Projection.point_eq_lerp] at hp
  have hfoot := (Vector3.within_distance p _).mono hp
  obtain ⟨sample, hsample, r, hr, hwithin⟩ := branch.exists_sample_near hsize ht ht'
  refine ⟨_, ofPoint_mem_block hsize (hfoot.trans hwithin) ?_, hsample⟩
  rw [Nat.cast_one, one_mul]
  linarith

end Arbor
