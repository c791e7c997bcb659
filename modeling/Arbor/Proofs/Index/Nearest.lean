import Mathlib.Analysis.Real.Sqrt
import Arbor.Proofs.Index.Candidates
import Arbor.Proofs.Index.Sampling

/-! Searches for the nearest in exact arithmetic. -/

namespace Arbor

namespace Candidate

variable {β : Type}

theorem isMeasured_real (c : Candidate ℝ β) : c.IsMeasured := rfl

/-- A candidate that does not beat another one is farther, or as far and not placed before it. -/
theorem not_beats_iff {c best : Candidate ℝ β} :
    ¬c.Beats best ↔ best.distance < c.distance ∨
      (best.distance = c.distance ∧ best.place ≤ c.place) :=
  (not_beats_iff_agree c.isMeasured_real best.isMeasured_real).trans
    (or_congr_right (and_congr_left' Scalar.agree_real_iff))

/-- All distances are numbers, so one of any candidates is left that no other one beats. -/
theorem exists_nearest? {candidates : List (Candidate ℝ β)} (h : candidates ≠ []) :
    ∃ best ∈ candidates, nearest? candidates = some best ∧ ∀ c ∈ candidates, ¬c.Beats best := by
  obtain ⟨first, rest, rfl⟩ := List.exists_cons_of_ne_nil h
  obtain ⟨best, hnearest, hbest⟩ := exists_nearest?_of_isMeasured first.isMeasured_real rest
  obtain ⟨hmem, -, hnone⟩ := isFirstNearest_iff.1 hbest
  exact ⟨best, hmem, hnearest, hnone⟩

/-- A candidate that none of the others beats is left at the end, unless another one has its
place. -/
theorem nearest?_eq_some {candidates : List (Candidate ℝ β)} {c : Candidate ℝ β}
    (hc : c ∈ candidates) (hplace : ∀ other ∈ candidates, other.place = c.place → other = c)
    (hbest : ∀ other ∈ candidates, ¬other.Beats c) : nearest? candidates = some c := by
  have hnearest : c.IsFirstNearest candidates :=
    isFirstNearest_iff.2 ⟨hc, c.isMeasured_real, hbest⟩
  exact hnearest.nearest?_eq_some (fun first _ => first.isMeasured_real) hplace

end Candidate

noncomputable def Branch.gap (branch : Branch ℝ) (p : Vector3 ℝ) : ℝ :=
  p.distance (Projection.onto p branch.base branch.tip).point

theorem Branch.gap_nonneg (branch : Branch ℝ) (p : Vector3 ℝ) : 0 ≤ branch.gap p :=
  Vector3.distance_nonneg _ _

noncomputable def Branch.candidate (branch : Branch ℝ) (place : Nat) (p : Vector3 ℝ) :
    Candidate ℝ (Branch ℝ × Projection ℝ) :=
  ⟨place, branch.gap p, branch, Projection.onto p branch.base branch.tip⟩

namespace SpatialIndex

variable {index : SpatialIndex ℝ}

/-- No index has cells without a size: what cannot be one is replaced by the default. -/
theorem Reachable.cellSize_pos (h : index.Reachable) : 0 < index.cellSize := by
  refine h.cellSize_induction ?_
  intro size
  unfold usableCellSize
  split
  case isTrue husable =>
    have hpos : (0.0 : ℝ) < size := husable.2
    norm_num at hpos
    exact hpos
  case isFalse =>
    norm_num [defaultCellSize]

/-- Without bounds to derive it from, the cells of a new index have the default size. -/
theorem cellSize_build_none (markers : Array (Marker ℝ)) (branches : Array (Branch ℝ)) :
    (build markers branches none).cellSize = 5 := by
  have hsize : (build markers branches none).cellSize = usableCellSize defaultCellSize := rfl
  rw [hsize, usableCellSize, ite_self]
  norm_num [defaultCellSize]

theorem mem_branchCandidates {p : Vector3 ℝ} {places : List Nat}
    {c : Candidate ℝ (Branch ℝ × Projection ℝ)} :
    c ∈ index.branchCandidates p places ↔ ∃ i ∈ places, ∃ branch,
      index.branches[i]? = some branch ∧ branch.candidate i p = c := by
  unfold branchCandidates
  rw [List.mem_filterMap]
  exact exists_congr fun i => and_congr_right fun _ => Option.map_eq_some_iff

/-- A branch at most half a cell away is among those searched. -/
theorem candidate_mem_of_gap_le (h : index.Reachable) {p : Vector3 ℝ} {i : Nat} {branch : Branch ℝ}
    (hbranch : index.branches[i]? = some branch) (hgap : branch.gap p ≤ index.cellSize / 2) :
    branch.candidate i p ∈ index.branchCandidates p
      (index.branchGrid.around (Cell.ofPoint index.cellSize p) 1) := by
  obtain ⟨cell, hcell, hstored⟩ := Cell.exists_cell_near h.cellSize_pos branch hgap
  have hplace : i ∈ index.branchGrid.get cell :=
    (mem_branchGrid_get index).2 ⟨branch, hbranch, hstored⟩
  exact mem_branchCandidates.2 ⟨i, Grid.mem_around.2 ⟨cell, hcell, hplace⟩, branch, hbranch, rfl⟩

/-- Whether the branch at a place is the nearest of all to a point, the first placed of those
equally near. -/
structure IsNearestBranch (index : SpatialIndex ℝ) (p : Vector3 ℝ) (place : Nat)
    (branch : Branch ℝ) : Prop where
  getElem?_eq : index.branches[place]? = some branch
  least : ∀ (i : Nat) (other : Branch ℝ), index.branches[i]? = some other →
    branch.gap p < other.gap p ∨ (branch.gap p = other.gap p ∧ place ≤ i)

/-- The nearest branch is no farther than any other one. -/
theorem IsNearestBranch.gap_le {p : Vector3 ℝ} {place : Nat} {nearest branch : Branch ℝ}
    (h : index.IsNearestBranch p place nearest) (hbranch : branch ∈ index.branches) :
    nearest.gap p ≤ branch.gap p := by
  obtain ⟨i, hi⟩ := Array.getElem?_of_mem hbranch
  rcases h.least i branch hi with hlt | ⟨heq, -⟩
  · exact hlt.le
  · exact heq.le

/-- Where there are branches, one is the nearest of all. -/
theorem exists_isNearestBranch (p : Vector3 ℝ) {branch : Branch ℝ} (h : branch ∈ index.branches) :
    ∃ place nearest, index.IsNearestBranch p place nearest := by
  have hmem {i : Nat} {branch : Branch ℝ} (hbranch : index.branches[i]? = some branch) :
      branch.candidate i p ∈ index.branchCandidates p (List.range index.branches.size) := by
    obtain ⟨hi, -⟩ := Array.getElem?_eq_some_iff.1 hbranch
    exact mem_branchCandidates.2 ⟨i, List.mem_range.2 hi, branch, hbranch, rfl⟩
  obtain ⟨i, hbranch⟩ := Array.getElem?_of_mem h
  obtain ⟨best, hbest, -, hnone⟩ :=
    Candidate.exists_nearest? (List.ne_nil_of_mem (hmem hbranch))
  obtain ⟨place, -, nearest, hnearest, rfl⟩ := mem_branchCandidates.1 hbest
  exact ⟨place, nearest, hnearest, fun i other hother =>
    Candidate.not_beats_iff.1 (hnone _ (hmem hother))⟩

/-- The search finds the nearest branch of all if that is at most half a cell away. -/
theorem IsNearestBranch.nearestBranch?_eq_some (h : index.Reachable) {p : Vector3 ℝ} {place : Nat}
    {branch : Branch ℝ} (hnearest : index.IsNearestBranch p place branch)
    (hgap : branch.gap p ≤ index.cellSize / 2) :
    index.nearestBranch? p = some
      { branch, place, distance := branch.gap p
        ratio := (Projection.onto p branch.base branch.tip).ratio
        point := (Projection.onto p branch.base branch.tip).point } := by
  have hbranch : index.branches[place]? = some branch := hnearest.getElem?_eq
  have hleft : Candidate.nearest? (index.branchCandidates p
      (index.branchGrid.around (Cell.ofPoint index.cellSize p) 1)) =
        some (branch.candidate place p) := by
    apply Candidate.nearest?_eq_some
    · exact candidate_mem_of_gap_le h hbranch hgap
    · intro c hc hplace
      obtain ⟨i, -, other, hother, rfl⟩ := mem_branchCandidates.1 hc
      obtain rfl : i = place := hplace
      rw [Option.some.inj (hbranch.symm.trans hother)]
    · intro c hc
      obtain ⟨i, -, other, hother, rfl⟩ := mem_branchCandidates.1 hc
      exact Candidate.not_beats_iff.2 (hnearest.least i other hother)
  rw [nearestBranch?, hleft, Option.map_some]
  rfl

/-- If some branch is at most half a cell away, the search finds the nearest one of all, the first
of those equally near. -/
theorem exists_nearestBranch_of_gap_le (index : SpatialIndex ℝ) (h : index.Reachable)
    (p : Vector3 ℝ) (hnear : ∃ branch ∈ index.branches, branch.gap p ≤ index.cellSize / 2) :
    ∃ place branch, index.branches[place]? = some branch ∧
      index.nearestBranch? p = some
        { branch, place, distance := branch.gap p
          ratio := (Projection.onto p branch.base branch.tip).ratio
          point := (Projection.onto p branch.base branch.tip).point } ∧
      ∀ (i : Nat) (other : Branch ℝ), index.branches[i]? = some other →
        branch.gap p < other.gap p ∨ (branch.gap p = other.gap p ∧ place ≤ i) := by
  obtain ⟨near, hmem, hgap⟩ := hnear
  obtain ⟨place, branch, hnearest⟩ := exists_isNearestBranch p hmem
  have hclose : branch.gap p ≤ index.cellSize / 2 := (hnearest.gap_le hmem).trans hgap
  exact ⟨place, branch, hnearest.getElem?_eq, hnearest.nearestBranch?_eq_some h hclose,
    hnearest.least⟩

end SpatialIndex

/-! ### Upright branches -/

namespace Branch

noncomputable def pole (x radius : ℝ) : Branch ℝ :=
  ⟨⟨x, 0, 0⟩, ⟨x, 10.0, 0⟩, radius, radius, 0, none⟩

/-- Half way up, the nearest point of a pole is its middle. -/
theorem onto_pole (x radius a : ℝ) :
    Projection.onto ⟨a, 5.0, 0⟩ (pole x radius).base (pole x radius).tip =
      (⟨1 / 2, ⟨x, 5.0, 0⟩⟩ : Projection ℝ) := by
  have hratio :
      (Projection.onto ⟨a, 5.0, 0⟩ ⟨x, 0, 0⟩ ⟨x, 10.0, 0⟩ : Projection ℝ).ratio = 1 / 2 := by
    norm_num [Projection.onto, Projection.degenerateLengthSq, Vector3.lengthSq, Vector3.dot,
      Scalar.clamp]
  have hpoint :
      (Projection.onto ⟨a, 5.0, 0⟩ ⟨x, 0, 0⟩ ⟨x, 10.0, 0⟩ : Projection ℝ).point = ⟨x, 5.0, 0⟩ := by
    rw [Projection.point_eq_lerp, hratio, Vector3.lerp_real]
    ext <;> norm_num [Vector3.scale]
  rw [pole, ← hratio, ← hpoint]

/-- Half way up, a pole is as far away as its axis is along the ground. -/
theorem pole_gap (x radius a : ℝ) : (pole x radius).gap ⟨a, 5.0, 0⟩ = |a - x| := by
  rw [gap, onto_pole, Vector3.distance, Vector3.length, Vector3.lengthSq_eq, Scalar.sqrt_real,
    ← Real.sqrt_sq_eq_abs]
  simp

/-- A pole is stored in one column of cells only. -/
theorem x_of_mem_ofBranch_pole {size : ℝ} (hsize : 0 < size) {x radius : ℝ} {cell : Cell}
    (h : cell ∈ Cell.ofBranch size (pole x radius)) : cell.x = Scalar.floorInt32 (x / size) := by
  obtain ⟨i, -, rfl⟩ := (mem_ofBranch_iff hsize).1 h
  rw [cellAt_eq, pole, sub_self, zero_mul, add_zero]

end Branch

namespace SpatialIndex

noncomputable def palisade : SpatialIndex ℝ :=
  build #[] #[.pole 12.0 0.5, .pole 6.0 0.5, .pole 2.0 0.5] none

noncomputable def passer : Vector3 ℝ := ⟨4.0, 5.0, 0⟩

theorem palisade_cellSize : palisade.cellSize = 5 := cellSize_build_none _ _

theorem palisade_second : palisade.branches[1]? = some (.pole 6.0 0.5) := rfl

theorem ofPoint_eq {p : Vector3 ℝ} {x y : Int} (hx : 5 * x ≤ p.x) (hx' : p.x < 5 * x + 5)
    (hy : 5 * y ≤ p.y) (hy' : p.y < 5 * y + 5) (hz : p.z = 0)
    (hx'' : minInt32 ≤ x ∧ x ≤ maxInt32) (hy'' : minInt32 ≤ y ∧ y ≤ maxInt32) :
    Cell.ofPoint 5 p = ⟨x, y, 0⟩ := by
  rw [Cell.ofPoint, Cell.mk.injEq, hz]
  refine ⟨Scalar.floorInt32_eq ?_ ?_ hx'', Scalar.floorInt32_eq ?_ ?_ hy'',
    Scalar.floorInt32_eq ?_ ?_ (by decide)⟩ <;> norm_num <;> linarith

theorem mem_palisade_get {cell : Cell} :
    1 ∈ palisade.branchGrid.get cell ↔ cell ∈ Cell.ofBranch 5 (.pole 6.0 0.5) := by
  rw [mem_branchGrid_get, palisade_cellSize, palisade_second]
  simp only [Option.some_inj, exists_eq_left']

/-- The second pole stands in several cells, none of them in the passer's column. -/
theorem palisade_cells :
    1 ∈ palisade.branchGrid.get ⟨1, 0, 0⟩ ∧ 1 ∈ palisade.branchGrid.get ⟨1, 2, 0⟩ ∧
      1 ∉ palisade.branchGrid.get (Cell.ofPoint palisade.cellSize passer) := by
  have hsize : (0 : ℝ) < 5 := by norm_num
  have hbase : Cell.ofPoint 5 (Branch.pole 6.0 0.5).base = ⟨1, 0, 0⟩ := by
    apply ofPoint_eq <;> norm_num [Branch.pole, minInt32, maxInt32]
  have htip : Cell.ofPoint 5 (Branch.pole 6.0 0.5).tip = ⟨1, 2, 0⟩ := by
    apply ofPoint_eq <;> norm_num [Branch.pole, minInt32, maxInt32]
  have hpasser : Cell.ofPoint 5 passer = ⟨0, 1, 0⟩ := by
    apply ofPoint_eq <;> norm_num [passer, minInt32, maxInt32]
  rw [palisade_cellSize, hpasser, mem_palisade_get, mem_palisade_get, mem_palisade_get, ← htip,
    ← hbase]
  refine ⟨Branch.ofPoint_base_mem_ofBranch hsize _, Branch.ofPoint_tip_mem_ofBranch hsize _, ?_⟩
  intro hstored
  have hcolumn := Branch.x_of_mem_ofBranch_pole hsize hstored
  have hone : Scalar.floorInt32 ((6.0 : ℝ) / 5) = 1 := by
    apply Scalar.floorInt32_eq <;> norm_num [minInt32, maxInt32]
  rw [hone] at hcolumn
  exact absurd hcolumn (by decide)

theorem pole_gap_passer (x : ℝ) : (Branch.pole x 0.5).gap passer = |4.0 - x| :=
  Branch.pole_gap x 0.5 4.0

/-- The first pole is farther away than the second, and the third as far but placed behind it. -/
theorem eq_one_of_least {place : Nat} {branch : Branch ℝ}
    (hbranch : palisade.branches[place]? = some branch)
    (hleast : branch.gap passer < (Branch.pole 6.0 0.5).gap passer ∨
      (branch.gap passer = (Branch.pole 6.0 0.5).gap passer ∧ place ≤ 1)) : place = 1 := by
  match place with
  | 0 =>
    obtain rfl : Branch.pole 12.0 0.5 = branch := Option.some.inj hbranch
    rw [pole_gap_passer, pole_gap_passer] at hleast
    norm_num at hleast
  | 1 => rfl
  | 2 =>
    obtain rfl : Branch.pole 2.0 0.5 = branch := Option.some.inj hbranch
    rw [pole_gap_passer, pole_gap_passer] at hleast
    norm_num at hleast
  | place + 3 => exact absurd hbranch nofun

/-- The search finds the pole that was placed first of the two nearest, though the other one stands
in the passer's column. -/
theorem palisade_nearestBranch :
    palisade.Reachable ∧
      (∃ branch ∈ palisade.branches, branch.gap passer ≤ palisade.cellSize / 2) ∧
      (1 ∈ palisade.branchGrid.get ⟨1, 0, 0⟩ ∧ 1 ∈ palisade.branchGrid.get ⟨1, 2, 0⟩ ∧
        1 ∉ palisade.branchGrid.get (Cell.ofPoint palisade.cellSize passer)) ∧
      palisade.nearestBranch? passer = some
        { branch := .pole 6.0 0.5, place := 1, distance := 2
          ratio := 1 / 2, point := ⟨6.0, 5.0, 0⟩ } := by
  have hreach : palisade.Reachable := Reachable.build _ _ _
  have hgap : (Branch.pole 6.0 0.5).gap passer = 2 := by
    rw [pole_gap_passer]
    norm_num
  have hnear : ∃ branch ∈ palisade.branches, branch.gap passer ≤ palisade.cellSize / 2 := by
    refine ⟨.pole 6.0 0.5, Array.mem_of_getElem? palisade_second, ?_⟩
    rw [hgap, palisade_cellSize]
    norm_num
  refine ⟨hreach, hnear, palisade_cells, ?_⟩
  obtain ⟨place, branch, hbranch, hfound, hleast⟩ :=
    exists_nearestBranch_of_gap_le palisade hreach passer hnear
  obtain rfl : place = 1 := eq_one_of_least hbranch (hleast 1 _ palisade_second)
  obtain rfl := Option.some.inj (palisade_second.symm.trans hbranch)
  have hfoot : Projection.onto passer (Branch.pole 6.0 0.5).base (Branch.pole 6.0 0.5).tip =
      (⟨1 / 2, ⟨6.0, 5.0, 0⟩⟩ : Projection ℝ) := Branch.onto_pole 6.0 0.5 4.0
  rw [hfound, hgap, hfoot]

end SpatialIndex

end Arbor
