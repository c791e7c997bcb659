import Mathlib.Analysis.Real.Sqrt
import Mathlib.Tactic.IntervalCases
import Arbor.Proofs.Index.Nearest

/-! The cells that the axis of a branch passes through, and those in which the branch is stored, in
exact arithmetic. The branch is missing from the cells that its axis only clips, between two
neighbouring samples, and a search next to such a cell may miss the branch. -/

namespace Arbor

open Scalar (floorInt32)

/-- Points of a segment are as far apart as their ratios say. -/
theorem Vector3.distance_lerp (v w : Vector3 ℝ) (t t' : ℝ) :
    (v.lerp w t).distance (v.lerp w t') = v.distance w * |t - t'| := by
  have hsq : (v.lerp w t - v.lerp w t').lengthSq = (t - t') ^ 2 * (v - w).lengthSq := by
    rw [lerp_real, lerp_real, lengthSq_eq, lengthSq_eq]
    simp only [x_sub, y_sub, z_sub, x_add, y_add, z_add, scale]
    ring
  calc (v.lerp w t).distance (v.lerp w t')
      = √((t - t') ^ 2 * (v - w).lengthSq) := by rw [distance, length, hsq, Scalar.sqrt_real]
    _ = |t - t'| * √(v - w).lengthSq := by
      rw [Real.sqrt_mul (sq_nonneg _), Real.sqrt_sq_eq_abs]
    _ = v.distance w * |t - t'| := mul_comm _ _

def Cell.InLine (first last : Cell) : Prop :=
  (first.y = last.y ∧ first.z = last.z) ∨ (first.x = last.x ∧ first.z = last.z) ∨
    (first.x = last.x ∧ first.y = last.y)

namespace Branch

variable {size : ℝ} {branch : Branch ℝ} {cell : Cell}

def Crosses (size : ℝ) (branch : Branch ℝ) (cell : Cell) : Prop :=
  ∃ t ∈ Set.Icc (0 : ℝ) 1, branch.cellAt size t = cell

/-- Whether the axis of a branch passes through a cell between two neighbouring samples only. -/
def Clips (size : ℝ) (branch : Branch ℝ) (cell : Cell) : Prop :=
  branch.Crosses size cell ∧ ∃ k : ℕ, ∀ t ∈ Set.Icc (0 : ℝ) 1, branch.cellAt size t = cell →
    k < t * branch.sampleSteps size ∧ t * branch.sampleSteps size < k + 1

/-- A branch is stored in just those cells that it passes through and does not clip. -/
theorem mem_ofBranch_iff_crosses (hsize : 0 < size) :
    cell ∈ Cell.ofBranch size branch ↔ branch.Crosses size cell ∧ ¬branch.Clips size cell := by
  have hpos := sampleSteps_pos size branch
  rw [mem_ofBranch_iff hsize]
  constructor
  · rintro ⟨i, hi, hcell⟩
    refine ⟨⟨_, sample_mem hi, hcell⟩, ?_⟩
    rintro ⟨-, k, hbetween⟩
    -- No whole number lies strictly between two neighbours.
    obtain ⟨hlower, hupper⟩ := hbetween _ (sample_mem hi) hcell
    rw [div_mul_cancel₀ _ hpos.ne'] at hlower hupper
    have hlower' : k < i := by exact_mod_cast hlower
    have hupper' : i < k + 1 := by exact_mod_cast hupper
    omega
  · rintro ⟨⟨t, ht, hcell⟩, hclips⟩
    have hlower : (⌊t * branch.sampleSteps size⌋₊ : ℝ) ≤ t * branch.sampleSteps size :=
      Nat.floor_le (mul_nonneg ht.1 hpos.le)
    have hupper := Nat.lt_floor_add_one (t * branch.sampleSteps size)
    generalize ⌊t * branch.sampleSteps size⌋₊ = k at hlower hupper
    -- The axis is in the cell at `t` and beyond one of the samples next to it, so at that sample.
    have hout : ¬∀ t' ∈ Set.Icc (0 : ℝ) 1, branch.cellAt size t' = cell →
        k < t' * branch.sampleSteps size ∧ t' * branch.sampleSteps size < k + 1 :=
      fun hall => hclips ⟨⟨t, ht, hcell⟩, k, hall⟩
    push Not at hout
    obtain ⟨t', ht', hcell', hbeyond⟩ := hout
    rcases le_or_gt (t' * branch.sampleSteps size) k with hle | hgt
    · have hk : (k : ℝ) ≤ branch.sampleSteps size :=
        hlower.trans (mul_le_of_le_one_left hpos.le ht.2)
      refine ⟨k, by exact_mod_cast hk, ?_⟩
      exact cellAt_between hsize ((le_div_iff₀ hpos).2 hle) ((div_le_iff₀ hpos).2 hlower) hcell'
        hcell
    · have hge : ((k + 1 : ℕ) : ℝ) ≤ t' * branch.sampleSteps size := by
        push_cast
        exact hbeyond hgt
      have hle : t * branch.sampleSteps size ≤ ((k + 1 : ℕ) : ℝ) := by
        push_cast
        exact hupper.le
      have hk : ((k + 1 : ℕ) : ℝ) ≤ branch.sampleSteps size :=
        hge.trans (mul_le_of_le_one_left hpos.le ht'.2)
      refine ⟨k + 1, by exact_mod_cast hk, ?_⟩
      exact cellAt_between hsize ((le_div_iff₀ hpos).2 hle) ((div_le_iff₀ hpos).2 hge) hcell hcell'

/-- What the axis has in a clipped cell lies between two points of it that are less than the size
of a cell apart. -/
theorem Clips.exists_between (h : branch.Clips size cell) (hsize : 0 < size) :
    ∃ t₁ ∈ Set.Icc (0 : ℝ) 1, ∃ t₂ ∈ Set.Icc (0 : ℝ) 1, branch.length * (t₂ - t₁) < size ∧
      ∀ t ∈ Set.Icc (0 : ℝ) 1, branch.cellAt size t = cell → t₁ < t ∧ t < t₂ := by
  obtain ⟨⟨t, ht, hcell⟩, k, hbetween⟩ := h
  have hpos := sampleSteps_pos size branch
  have hk : k + 1 ≤ branch.sampleSteps size := by
    have hlt : (k : ℝ) < branch.sampleSteps size :=
      (hbetween t ht hcell).1.trans_le (mul_le_of_le_one_left hpos.le ht.2)
    exact_mod_cast hlt
  refine ⟨_, sample_mem (Nat.le_of_succ_le hk), _, sample_mem hk, ?_, ?_⟩
  · calc branch.length * (((k + 1 : ℕ) : ℝ) / branch.sampleSteps size - k / branch.sampleSteps size)
        = branch.length / branch.sampleSteps size := by
          push_cast
          ring
      _ < size := by
        rw [div_lt_iff₀ hpos]
        exact length_lt_mul_sampleSteps hsize branch
  · intro t ht hcell
    rw [div_lt_iff₀ hpos, lt_div_iff₀ hpos, Nat.cast_add_one]
    exact hbetween t ht hcell

/-- In a cell that it clips, the axis runs for less than the size of a cell. -/
theorem Clips.distance_lt (h : branch.Clips size cell) (hsize : 0 < size) {t t' : ℝ}
    (ht : t ∈ Set.Icc (0 : ℝ) 1) (ht' : t' ∈ Set.Icc (0 : ℝ) 1)
    (hcell : branch.cellAt size t = cell) (hcell' : branch.cellAt size t' = cell) :
    (branch.base.lerp branch.tip t).distance (branch.base.lerp branch.tip t') < size := by
  obtain ⟨t₁, -, t₂, -, hshort, hbetween⟩ := h.exists_between hsize
  obtain ⟨hlower, hupper⟩ := hbetween t ht hcell
  obtain ⟨hlower', hupper'⟩ := hbetween t' ht' hcell'
  have hnear : |t - t'| ≤ t₂ - t₁ := by
    rw [abs_le]
    constructor <;> linarith
  calc (branch.base.lerp branch.tip t).distance (branch.base.lerp branch.tip t')
      = branch.length * |t - t'| := Vector3.distance_lerp _ _ t t'
    _ ≤ branch.length * (t₂ - t₁) :=
      mul_le_mul_of_nonneg_left hnear (Vector3.distance_nonneg _ _)
    _ < size := hshort

/-- Along each axis of space, a point between two that are at most the size of a cell apart has the
place of one of them. -/
theorem floorInt32_at_one (hsize : 0 < size) (a d : ℝ) {t t₁ t₂ : ℝ} (h₁ : t₁ ≤ t) (h₂ : t ≤ t₂)
    (hnear : |d| * (t₂ - t₁) ≤ size) :
    floorInt32 ((a + d * t₁) / size) = floorInt32 ((a + d * t) / size) ∨
      floorInt32 ((a + d * t₂) / size) = floorInt32 ((a + d * t) / size) := by
  have hdiff : |(a + d * t₁) / size - (a + d * t₂) / size| ≤ (1 : ℕ) := by
    calc |(a + d * t₁) / size - (a + d * t₂) / size| = |d * (t₁ - t₂) / size| := by ring_nf
      _ = |d| * (t₂ - t₁) / size := by
        rw [abs_div, abs_of_pos hsize, abs_mul, abs_sub_comm t₁ t₂,
          abs_of_nonneg (sub_nonneg.2 (h₁.trans h₂))]
      _ ≤ (1 : ℕ) := by rwa [div_le_iff₀ hsize, Nat.cast_one, one_mul]
  have hfloors := Scalar.floorInt32_sub_le hdiff
  -- A place between two that are no more than one apart is one of them.
  have hbetween := floorInt32_between hsize a d h₁ h₂
  omega

/-- Along an axis of space on which the ends of a segment have one place, all its points have it. -/
theorem floorInt32_at_end (hsize : 0 < size) (a d : ℝ)
    (h : floorInt32 ((a + d * 0) / size) = floorInt32 ((a + d * 1) / size)) {t : ℝ}
    (ht : t ∈ Set.Icc (0 : ℝ) 1) :
    floorInt32 ((a + d * t) / size) = floorInt32 ((a + d * 0) / size) := by
  have hbetween := floorInt32_between hsize a d ht.1 ht.2
  omega

/-- A branch whose ends lie in one line of cells clips none. -/
theorem not_clips_of_inLine (hsize : 0 < size)
    (hline : (Cell.ofPoint size branch.base).InLine (Cell.ofPoint size branch.tip)) :
    ¬branch.Clips size cell := by
  intro hclips
  obtain ⟨t₁, ht₁, t₂, ht₂, hshort, hbetween⟩ := hclips.exists_between hsize
  obtain ⟨t, ht, hcell⟩ := hclips.1
  obtain ⟨h₁, h₂⟩ := hbetween t ht hcell
  have hmiss₁ : branch.cellAt size t₁ ≠ cell := fun h => lt_irrefl t₁ (hbetween t₁ ht₁ h).1
  have hmiss₂ : branch.cellAt size t₂ ≠ cell := fun h => lt_irrefl t₂ (hbetween t₂ ht₂ h).2
  -- On two axes both points have the place of the cell, and on the third one of them has it.
  have hstays (a d : ℝ)
      (h : floorInt32 ((a + d * 0) / size) = floorInt32 ((a + d * 1) / size)) :
      floorInt32 ((a + d * t₁) / size) = floorInt32 ((a + d * t) / size) ∧
        floorInt32 ((a + d * t₂) / size) = floorInt32 ((a + d * t) / size) := by
    have hend := floorInt32_at_end hsize a d h ht
    exact ⟨(floorInt32_at_end hsize a d h ht₁).trans hend.symm,
      (floorInt32_at_end hsize a d h ht₂).trans hend.symm⟩
  have hone (a : ℝ) {d : ℝ} (hd : |d| ≤ branch.length) :
      floorInt32 ((a + d * t₁) / size) = floorInt32 ((a + d * t) / size) ∨
        floorInt32 ((a + d * t₂) / size) = floorInt32 ((a + d * t) / size) := by
    apply floorInt32_at_one hsize a d h₁.le h₂.le
    exact (mul_le_mul_of_nonneg_right hd (by linarith)).trans hshort.le
  obtain ⟨hx, hy, hz⟩ := Vector3.abs_coordinate_le_length (branch.tip - branch.base)
  have hlength : (branch.tip - branch.base).length = branch.length := Vector3.distance_comm _ _
  rw [hlength] at hx hy hz
  rw [← cellAt_zero, ← cellAt_one, cellAt_eq, cellAt_eq] at hline
  rw [← hcell, cellAt_eq, cellAt_eq, Ne, Cell.mk.injEq] at hmiss₁ hmiss₂
  have hx := hone branch.base.x hx
  have hy := hone branch.base.y hy
  have hz := hone branch.base.z hz
  simp only [Vector3.x_sub, Vector3.y_sub, Vector3.z_sub] at hx hy hz
  rcases hline with ⟨hy', hz'⟩ | ⟨hx', hz'⟩ | ⟨hx', hy'⟩
  · have hy := hstays _ _ hy'
    have hz := hstays _ _ hz'
    omega
  · have hx := hstays _ _ hx'
    have hz := hstays _ _ hz'
    omega
  · have hx := hstays _ _ hx'
    have hy := hstays _ _ hy'
    omega

/-- A point of the axis has one of the branch's cells in the block around its own. -/
theorem Crosses.exists_mem_block (h : branch.Crosses size cell) (hsize : 0 < size) :
    ∃ stored ∈ cell.block 1, stored ∈ Cell.ofBranch size branch := by
  obtain ⟨t, ht, rfl⟩ := h
  obtain ⟨sample, hsample, r, hr, hwithin⟩ := branch.exists_sample_near hsize ht.1 ht.2
  refine ⟨_, Cell.ofPoint_mem_block hsize hwithin ?_, hsample⟩
  rw [Nat.cast_one, one_mul]
  linarith

end Branch

namespace SpatialIndex

/-- A branch is stored in the cells that it passes through, except those that it only clips. In
these it runs for less than the size of a cell, and there are none if its ends lie in one line of
cells. So a search for the nearest branch looks at just those branches that pass through a cell of
its block without clipping it, and at all that pass through the cell of the point itself. -/
theorem mem_branchGrid_iff_crosses (index : SpatialIndex ℝ) (h : index.Reachable) {i : ℕ}
    {branch : Branch ℝ} (hbranch : index.branches[i]? = some branch) :
    (∀ cell, i ∈ index.branchGrid.get cell ↔
      branch.Crosses index.cellSize cell ∧ ¬branch.Clips index.cellSize cell) ∧
    (∀ cell, branch.Clips index.cellSize cell →
      ¬(Cell.ofPoint index.cellSize branch.base).InLine
          (Cell.ofPoint index.cellSize branch.tip) ∧
        ∀ t ∈ Set.Icc (0 : ℝ) 1, ∀ t' ∈ Set.Icc (0 : ℝ) 1,
          branch.cellAt index.cellSize t = cell → branch.cellAt index.cellSize t' = cell →
            (branch.base.lerp branch.tip t).distance (branch.base.lerp branch.tip t') <
              index.cellSize) ∧
    ∀ p, (i ∈ index.branchGrid.around (Cell.ofPoint index.cellSize p) 1 ↔
        ∃ cell ∈ (Cell.ofPoint index.cellSize p).block 1,
          branch.Crosses index.cellSize cell ∧ ¬branch.Clips index.cellSize cell) ∧
      (branch.Crosses index.cellSize (Cell.ofPoint index.cellSize p) →
        i ∈ index.branchGrid.around (Cell.ofPoint index.cellSize p) 1) := by
  have hsize := h.cellSize_pos
  have hget : ∀ cell,
      i ∈ index.branchGrid.get cell ↔ cell ∈ Cell.ofBranch index.cellSize branch := by
    intro cell
    rw [mem_branchGrid_get, hbranch]
    simp
  have hstored : ∀ cell, i ∈ index.branchGrid.get cell ↔
      branch.Crosses index.cellSize cell ∧ ¬branch.Clips index.cellSize cell := by
    intro cell
    rw [hget, Branch.mem_ofBranch_iff_crosses hsize]
  refine ⟨hstored, ?_, ?_⟩
  · intro cell hclips
    exact ⟨fun hline => Branch.not_clips_of_inLine hsize hline hclips,
      fun t ht t' ht' hcell hcell' => hclips.distance_lt hsize ht ht' hcell hcell'⟩
  · intro p
    constructor
    · rw [Grid.mem_around]
      simp only [hstored]
    · intro hcross
      obtain ⟨cell, hcell, hmem⟩ := hcross.exists_mem_block hsize
      exact Grid.mem_around.2 ⟨cell, hcell, (hget cell).2 hmem⟩

noncomputable def slant : Branch ℝ :=
  ⟨⟨0.5, 0.375, 0.5⟩, ⟨1.5, 1.375, 0.5⟩, 1, 1, 0, none⟩

noncomputable def clearing : SpatialIndex ℝ :=
  (SpatialIndex.empty 1).rebuild #[] #[slant] none

theorem clearing_cellSize : clearing.cellSize = 1 := by
  have hsize : clearing.cellSize = usableCellSize (1 : ℝ) := rfl
  rw [hsize, usableCellSize]
  norm_num

/-- The branch is longer than one cell and shorter than two, and is sampled in three steps. -/
theorem slant_sampleSteps : slant.sampleSteps 1 = 3 := by
  have hlength : slant.length = √2 := by
    rw [Branch.length, Vector3.distance, Vector3.length, Vector3.lengthSq_eq, Scalar.sqrt_real]
    norm_num [slant]
  have hlower : (1 : ℝ) < √2 := by
    rw [Real.lt_sqrt] <;> norm_num
  have hupper : √2 ≤ (2 : ℝ) := by
    rw [Real.sqrt_le_left] <;> norm_num
  rw [Branch.sampleSteps, hlength, div_one, Scalar.ceilNat_real]
  have hceil : ⌈√2⌉₊ = 2 := by
    apply le_antisymm
    · apply Nat.ceil_le.2
      exact_mod_cast hupper
    · apply Nat.succ_le_of_lt
      apply Nat.lt_ceil.2
      exact_mod_cast hlower
  rw [hceil]

theorem slant_cellAt {t : ℝ} {x y : Int} (hx : x ≤ 1 / 2 + t) (hx' : 1 / 2 + t < x + 1)
    (hy : y ≤ 3 / 8 + t) (hy' : 3 / 8 + t < y + 1) (hx'' : minInt32 ≤ x ∧ x ≤ maxInt32)
    (hy'' : minInt32 ≤ y ∧ y ≤ maxInt32) : slant.cellAt 1 t = ⟨x, y, 0⟩ := by
  rw [Branch.cellAt_eq, Cell.mk.injEq]
  refine ⟨Scalar.floorInt32_eq ?_ ?_ hx'', Scalar.floorInt32_eq ?_ ?_ hy'',
    Scalar.floorInt32_eq ?_ ?_ (by decide)⟩ <;> norm_num [slant] <;> linarith

/-- Of the three cells that it passes through, the branch is stored in the first and the last. -/
theorem eq_of_mem_ofBranch_slant {cell : Cell} (h : cell ∈ Cell.ofBranch 1 slant) :
    cell = ⟨0, 0, 0⟩ ∨ cell = ⟨1, 1, 0⟩ := by
  obtain ⟨i, hi, hcell⟩ := (Branch.mem_ofBranch_iff one_pos).1 h
  rw [slant_sampleSteps] at hi hcell
  rw [← hcell]
  interval_cases i
  · left
    apply slant_cellAt <;> norm_num [minInt32, maxInt32]
  · left
    apply slant_cellAt <;> norm_num [minInt32, maxInt32]
  · right
    apply slant_cellAt <;> norm_num [minInt32, maxInt32]
  · right
    apply slant_cellAt <;> norm_num [minInt32, maxInt32]

/-- A little past half of its length the axis is in the next column already, and still in the first
row. -/
theorem slant_crosses : slant.Crosses 1 ⟨1, 0, 0⟩ := by
  refine ⟨9 / 16, by norm_num, ?_⟩
  apply slant_cellAt <;> norm_num [minInt32, maxInt32]

theorem clearing_reachable : clearing.Reachable :=
  Reachable.rebuild (Reachable.empty 1) _ _ _

/-- Nothing is stored in a block that reaches neither down to the first of these cells nor up to the
last one. -/
theorem not_mem_clearing {cell : Cell} (hcell : cell ∈ (⟨2, -1, 0⟩ : Cell).block 1) (i : ℕ) :
    i ∉ clearing.branchGrid.get cell := by
  intro hi
  obtain ⟨branch, hbranch, hstored⟩ := (mem_branchGrid_get clearing).1 hi
  obtain rfl : branch = slant := Array.mem_singleton.1 (Array.mem_of_getElem? hbranch)
  rw [clearing_cellSize] at hstored
  obtain ⟨hx, hy, -⟩ := Cell.mem_block.1 hcell
  rw [Cell.mem_span] at hx hy
  rcases eq_of_mem_ofBranch_slant hstored with rfl | rfl
  · exact absurd hx (by decide)
  · exact absurd hy (by decide)

theorem mem_block_clearing : (⟨1, 0, 0⟩ : Cell) ∈ (⟨2, -1, 0⟩ : Cell).block 1 := by
  decide

/-- The cell in between is clipped only, and a search at a point of the axis in it still meets the
branch in the cells next to it. -/
theorem clearing_clips_slant :
    clearing.Reachable ∧ clearing.branches[0]? = some slant ∧
      slant.Clips clearing.cellSize ⟨1, 0, 0⟩ ∧
      0 ∈ clearing.branchGrid.around
        (Cell.ofPoint clearing.cellSize (slant.base.lerp slant.tip (9 / 16))) 1 := by
  have hbranch : clearing.branches[0]? = some slant := rfl
  obtain ⟨hstored, -, hsearch⟩ := mem_branchGrid_iff_crosses clearing clearing_reachable hbranch
  refine ⟨clearing_reachable, hbranch, ?_, ?_⟩
  · by_contra hclips
    apply not_mem_clearing mem_block_clearing 0
    apply (hstored _).2
    rw [clearing_cellSize] at hclips ⊢
    exact ⟨slant_crosses, hclips⟩
  · apply (hsearch _).2
    exact ⟨9 / 16, by norm_num, rfl⟩

/-- The axis of the branch passes through a cell of the block around a point, and the search at that
point finds nothing. -/
theorem clearing_misses_slant :
    clearing.Reachable ∧ clearing.branches[0]? = some slant ∧
      ∃ cell ∈ (Cell.ofPoint clearing.cellSize ⟨5 / 2, -1 / 2, 1 / 2⟩).block 1,
        slant.Crosses clearing.cellSize cell ∧ 0 ∉ clearing.branchGrid.get cell ∧
          clearing.nearestBranch? ⟨5 / 2, -1 / 2, 1 / 2⟩ = none := by
  have hcenter : Cell.ofPoint 1 (⟨5 / 2, -1 / 2, 1 / 2⟩ : Vector3 ℝ) = ⟨2, -1, 0⟩ := by
    rw [Cell.ofPoint, Cell.mk.injEq]
    refine ⟨Scalar.floorInt32_eq ?_ ?_ (by decide), Scalar.floorInt32_eq ?_ ?_ (by decide),
      Scalar.floorInt32_eq ?_ ?_ (by decide)⟩ <;> norm_num
  have haround : clearing.branchGrid.around ⟨2, -1, 0⟩ 1 = [] := by
    apply List.eq_nil_iff_forall_not_mem.2
    intro i hi
    obtain ⟨cell, hcell, hi⟩ := Grid.mem_around.1 hi
    exact not_mem_clearing hcell i hi
  refine ⟨clearing_reachable, rfl, ⟨1, 0, 0⟩, ?_⟩
  rw [nearestBranch?, clearing_cellSize, hcenter, haround]
  exact ⟨mem_block_clearing, slant_crosses, not_mem_clearing mem_block_clearing 0, rfl⟩

end SpatialIndex

end Arbor
