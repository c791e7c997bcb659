import Mathlib.Algebra.Order.BigOperators.Group.List
import Mathlib.Analysis.Real.Sqrt
import Mathlib.Data.Set.Card
import Mathlib.Tactic.Linarith
import Mathlib.Tactic.Positivity
import Arbor.Proofs.Index.Sampling
import Arbor.Proofs.Space.Bounds

/-! How large the index of a tree becomes, in exact arithmetic. The cells grow with the bounds of
the tree, so a branch is stored in a few cells however long it is, and the index depends in size on
how much the tree has of branches and markers alone. -/

namespace Arbor

/-! ### Tables and lists -/

theorem length_eraseReps_loop_le {γ : Type} [BEq γ] (first : γ) (rest acc : List γ) :
    (List.eraseRepsBy.loop (· == ·) first rest acc).length ≤ acc.length + 1 + rest.length := by
  -- What is kept so far grows along with the loop, and the entry before it is counted apart.
  induction rest generalizing first acc with
  | nil => simp [List.eraseRepsBy.loop]
  | cons second rest ih =>
    rw [List.eraseRepsBy.loop]
    split
    case h_1 =>
      exact (ih first acc).trans (Nat.add_le_add_left (Nat.le_succ _) _)
    case h_2 =>
      have hle := ih second (first :: acc)
      rw [List.length_cons] at hle ⊢
      omega

theorem length_eraseReps_le {γ : Type} [BEq γ] (list : List γ) :
    list.eraseReps.length ≤ list.length := by
  cases list with
  | nil => exact Nat.le_refl _
  | cons first rest =>
    have hle := length_eraseReps_loop_le first rest []
    rw [List.length_nil, Nat.zero_add, Nat.add_comm] at hle
    exact hle

namespace Grid

/-- A grid has no more occupied cells than something was put into it. -/
theorem size_insertAll_le (entries : List (Cell × Nat)) (grid : Grid) :
    (grid.insertAll entries).size ≤ grid.size + entries.length := by
  induction entries generalizing grid with
  | nil => exact Nat.le_refl _
  | cons entry entries ih =>
    have hentry : (grid.insert entry).size ≤ grid.size + 1 := Std.HashMap.size_alter_le_size
    calc (grid.insertAll (entry :: entries)).size
        ≤ (grid.insert entry).size + entries.length := ih (grid.insert entry)
      _ ≤ grid.size + (entry :: entries).length := by
        rw [List.length_cons]
        omega

/-- A grid has no more cells than it was given entries. -/
theorem size_ofList_le (entries : List (Cell × Nat)) : (ofList entries).size ≤ entries.length := by
  have hle := size_insertAll_le entries empty
  have hempty : empty.size = 0 := Std.HashMap.size_empty
  rwa [hempty, Nat.zero_add] at hle

end Grid

theorem length_markerEntries {α : Type} [Scalar α] (cellSize : α) (markers : Array (Marker α)) :
    (markerEntries cellSize markers).length = markers.size := by
  rw [markerEntries, List.length_map, List.length_zipIdx, Array.length_toList]

/-- The entries of some branches, if none of them has more cells than a bound. -/
theorem length_branchEntries_le {α : Type} [Scalar α] {cellSize : α} {branches : Array (Branch α)}
    {bound : Nat} (h : ∀ branch ∈ branches, (Cell.ofBranch cellSize branch).length ≤ bound) :
    (branchEntries cellSize branches).length ≤ bound * branches.size := by
  have hlength : branches.toList.zipIdx.length = branches.size := by
    rw [List.length_zipIdx, Array.length_toList]
  rw [branchEntries, List.length_flatMap, ← hlength, Nat.mul_comm, ← smul_eq_mul,
    ← List.length_map]
  apply List.sum_le_card_nsmul
  intro length hmem
  obtain ⟨⟨branch, i⟩, hentry, rfl⟩ := List.mem_map.1 hmem
  rw [List.length_map]
  rw [List.mk_mem_zipIdx_iff_getElem?, Array.getElem?_toList] at hentry
  exact h branch (Array.mem_of_getElem? hentry)

/-! ### How many cells a side has -/

/-- The first number of some in a row that is no less than a bound. -/
theorem find?_range'_getD (start length bound : Nat) :
    ((List.range' start length).find? fun n => bound ≤ n).getD (start + length) =
      max start (min (start + length) bound) := by
  induction length generalizing start with
  | zero =>
    rw [List.range'_zero, List.find?_nil, Option.getD_none]
    omega
  | succ length ih =>
    rw [List.range'_succ]
    by_cases h : bound ≤ start
    · rw [List.find?_cons_of_pos (by simpa using h), Option.getD_some]
      omega
    · rw [List.find?_cons_of_neg (by simpa using h), Nat.add_comm length, ← Nat.add_assoc, ih]
      omega

namespace SpatialIndex

/-- The square root of a count, rounded up and kept within the bounds for the cells of a side. -/
noncomputable def cellsAlong (count : Nat) : Nat :=
  max minCells (min maxCells ⌈√(count : ℝ)⌉₊)

/-- The square root of the count says how many cells the longest side has. -/
theorem cellsFor_eq (count : Nat) : cellsFor count = cellsAlong count := by
  have hroot : (fun n : Nat => decide (count ≤ n * n)) = fun n => decide (⌈√(count : ℝ)⌉₊ ≤ n) := by
    -- A number reaches the root just when its square reaches the count.
    funext n
    rw [decide_eq_decide, Nat.ceil_le, Real.sqrt_le_left (Nat.cast_nonneg n), sq]
    exact_mod_cast Iff.rfl
  rw [cellsFor, hroot]
  exact find?_range'_getD minCells (maxCells - minCells) ⌈√(count : ℝ)⌉₊

end SpatialIndex

/-! ### How long a branch is -/

theorem Vector3.coordinate_le_largest (v : Vector3 ℝ) (axis : Axis) :
    v.coordinate axis ≤ v.largest := by
  have hyz : v.y ≤ (if v.z < v.y then v.y else v.z) ∧ v.z ≤ (if v.z < v.y then v.y else v.z) := by
    split
    case isTrue h => exact ⟨le_rfl, h.le⟩
    case isFalse h => exact ⟨not_lt.1 h, le_rfl⟩
  -- With the larger one of the last two coordinates named, one comparison is left.
  rw [Vector3.largest]
  generalize (if v.z < v.y then v.y else v.z) = yz at hyz
  split
  case isTrue h =>
    cases axis with
    | x => exact le_rfl
    | y => exact hyz.1.trans h.le
    | z => exact hyz.2.trans h.le
  case isFalse h =>
    cases axis with
    | x => exact not_lt.1 h
    | y => exact hyz.1
    | z => exact hyz.2

theorem Box.sub_le_longestSide (box : Box ℝ) (axis : Axis) :
    box.upper.coordinate axis - box.lower.coordinate axis ≤ box.longestSide := by
  refine le_trans ?_ (Vector3.coordinate_le_largest box.size axis)
  have hside (a : ℝ) : a ≤ (if (0.0 : ℝ) < a then a else 0.0) := by
    split
    case isTrue => exact le_rfl
    case isFalse h => exact not_lt.1 h
  cases axis with
  | x => exact hside (box.upper.x - box.lower.x)
  | y => exact hside (box.upper.y - box.lower.y)
  | z => exact hside (box.upper.z - box.lower.z)

namespace Skeleton

variable {skeleton : Skeleton ℝ}

/-- Along each axis, no two points of a tree are further apart than the longest side of its
bounds. -/
theorem within_longestSide {p q : Vector3 ℝ} (hp : p ∈ skeleton.points)
    (hq : q ∈ skeleton.points) : p.Within q skeleton.bounds.longestSide := by
  have hhull : skeleton.bounds.IsHull skeleton.points :=
    isHull_bounds (List.ne_nil_of_mem hp) fun _ _ _ => rfl
  have hside (axis : Axis) :
      |p.coordinate axis - q.coordinate axis| ≤ skeleton.bounds.longestSide := by
    have hp' := List.mem_map_of_mem (f := (·.coordinate axis)) hp
    have hq' := List.mem_map_of_mem (f := (·.coordinate axis)) hq
    have hlower := (hhull.lower axis).before
    have hupper := (hhull.upper axis).before
    have hlongest := skeleton.bounds.sub_le_longestSide axis
    rw [abs_le]
    constructor
    · have hleast := hlower _ hp'
      have hmost := hupper _ hq'
      linarith
    · have hleast := hlower _ hq'
      have hmost := hupper _ hp'
      linarith
  exact ⟨hside .x, hside .y, hside .z⟩

/-- No branch is longer than the diagonal of a cube around the tree. -/
theorem length_le {branch : Branch ℝ} (h : branch ∈ skeleton.branches) :
    branch.length ≤ √3 * skeleton.bounds.longestSide := by
  obtain ⟨hbase, htip⟩ := mem_points_of_branch h
  exact (within_longestSide hbase htip).distance_le

end Skeleton

/-! ### How many cells a branch has -/

/-- A branch has a cell for each of its samples at most. -/
theorem Cell.length_ofBranch_le (size : ℝ) (branch : Branch ℝ) :
    (ofBranch size branch).length ≤ ⌈branch.length / size⌉₊ + 2 := by
  rw [ofBranch]
  split
  case isTrue => exact Nat.le_add_left 1 (⌈branch.length / size⌉₊ + 1)
  case isFalse =>
    rw [if_neg (by simp)]
    refine (length_eraseReps_le _).trans ?_
    rw [List.length_map, List.length_range, Scalar.ceilNat_real]

namespace SpatialIndex

/-- There are at least eight and at most twenty cells along the longest side. -/
theorem cellsAlong_mem (count : Nat) : 8 ≤ cellsAlong count ∧ cellsAlong count ≤ 20 := by
  rw [cellsAlong, minCells, maxCells]
  omega

theorem cellSizeFor_real (bounds : Box ℝ) (count : Nat) :
    cellSizeFor bounds count = max (bounds.longestSide / cellsAlong count) 1 := by
  have hpos : 0 < max (bounds.longestSide / cellsAlong count) 1 := lt_max_of_lt_right one_pos
  rw [cellSizeFor, cellsFor_eq, Scalar.maxNum_real, Scalar.one_real, usableCellSize,
    Scalar.zero_real]
  exact if_pos ⟨rfl, hpos⟩

/-- The cells divide the longest side evenly, but are never smaller than one. -/
theorem cellSize_ofSkeleton (skeleton : Skeleton ℝ) :
    (ofSkeleton skeleton).cellSize =
      max (skeleton.bounds.longestSide / cellsAlong skeleton.markers.size) 1 :=
  cellSizeFor_real skeleton.bounds skeleton.markers.size

theorem cellSize_ofSkeleton_pos (skeleton : Skeleton ℝ) : 0 < (ofSkeleton skeleton).cellSize := by
  rw [cellSize_ofSkeleton]
  exact lt_max_of_lt_right one_pos

/-- The cells along the longest side of a tree's bounds reach from its one end to the other. -/
theorem longestSide_le (skeleton : Skeleton ℝ) :
    skeleton.bounds.longestSide ≤
      (ofSkeleton skeleton).cellSize * cellsAlong skeleton.markers.size := by
  have hpos : (0 : ℝ) < cellsAlong skeleton.markers.size := by
    have hleast := (cellsAlong_mem skeleton.markers.size).1
    exact_mod_cast Nat.lt_of_lt_of_le (by decide) hleast
  rw [cellSize_ofSkeleton, ← div_le_iff₀ hpos]
  exact le_max_left _ _

/-- A cube of as many cells along each side as there can be has at most 35 along its diagonal. -/
theorem ceil_diagonal_le (count : Nat) : ⌈√3 * cellsAlong count⌉₊ ≤ 35 := by
  have hroot : √3 ≤ 1.75 := by
    rw [Real.sqrt_le_left (by norm_num)]
    norm_num
  have hcells : (cellsAlong count : ℝ) ≤ 20 := by
    exact_mod_cast (cellsAlong_mem count).2
  rw [Nat.ceil_le]
  calc √3 * cellsAlong count ≤ 1.75 * 20 :=
        mul_le_mul hroot hcells (Nat.cast_nonneg _) (by norm_num)
    _ = (35 : ℕ) := by norm_num

/-- No branch has more cells than a diagonal through the tree can have samples. -/
theorem length_branchCells_le (skeleton : Skeleton ℝ) {branch : Branch ℝ}
    (h : branch ∈ skeleton.branches) :
    (Cell.ofBranch (ofSkeleton skeleton).cellSize branch).length ≤
      ⌈√3 * cellsAlong skeleton.markers.size⌉₊ + 2 := by
  have hsize := cellSize_ofSkeleton_pos skeleton
  have hratio : branch.length / (ofSkeleton skeleton).cellSize ≤
      √3 * cellsAlong skeleton.markers.size := by
    rw [div_le_iff₀ hsize]
    calc branch.length ≤ √3 * skeleton.bounds.longestSide := Skeleton.length_le h
      _ ≤ √3 * ((ofSkeleton skeleton).cellSize * cellsAlong skeleton.markers.size) :=
        mul_le_mul_of_nonneg_left (longestSide_le skeleton) (Real.sqrt_nonneg 3)
      _ = √3 * cellsAlong skeleton.markers.size * (ofSkeleton skeleton).cellSize := by ring
  exact (Cell.length_ofBranch_le _ branch).trans
    (Nat.add_le_add_right (Nat.ceil_le_ceil hratio) 2)

/-- A branch stands in no more cells than it has been given. -/
theorem encard_cells_le (skeleton : Skeleton ℝ) (i : Nat) :
    {cell | i ∈ (ofSkeleton skeleton).branchGrid.get cell}.encard ≤
      (⌈√3 * cellsAlong skeleton.markers.size⌉₊ + 2 : ℕ) := by
  simp only [mem_branchGrid_get]
  have hbranches : (ofSkeleton skeleton).branches = skeleton.branches := rfl
  rw [hbranches]
  cases hbranch : skeleton.branches[i]? with
  | none => simp -- A place without a branch is in no cell.
  | some branch =>
    have hsubset : {cell | ∃ other, some branch = some other ∧
        cell ∈ Cell.ofBranch (ofSkeleton skeleton).cellSize other} ⊆
        ((Cell.ofBranch (ofSkeleton skeleton).cellSize branch).toFinset : Set Cell) := by
      rintro cell ⟨_, ⟨⟩, hcell⟩
      rwa [List.coe_toFinset]
    refine (Set.encard_le_encard hsubset).trans ?_
    rw [Set.encard_coe_eq_coe_finsetCard]
    exact_mod_cast (List.toFinset_card_le _).trans
      (length_branchCells_le skeleton (Array.mem_of_getElem? hbranch))

/-- The index of a tree is bounded in size by its numbers of branches and markers. Each branch is
stored in no more cells than the number of markers allows, and never in more than 37, however long
it is. -/
theorem size_ofSkeleton_le (skeleton : Skeleton ℝ) :
    (∀ i, {cell | i ∈ (ofSkeleton skeleton).branchGrid.get cell}.encard ≤
      (⌈√3 * cellsAlong skeleton.markers.size⌉₊ + 2 : ℕ)) ∧
    (∀ i, {cell | i ∈ (ofSkeleton skeleton).branchGrid.get cell}.encard ≤ 37) ∧
    (ofSkeleton skeleton).branchGrid.size ≤ 37 * skeleton.branches.size ∧
    (ofSkeleton skeleton).markerGrid.size ≤ skeleton.markers.size := by
  have hbound : ⌈√3 * cellsAlong skeleton.markers.size⌉₊ + 2 ≤ 37 :=
    Nat.add_le_add_right (ceil_diagonal_le _) 2
  refine ⟨encard_cells_le skeleton, fun i => ?_, ?_, ?_⟩
  · exact (encard_cells_le skeleton i).trans (by exact_mod_cast hbound)
  · rw [(ofSkeleton skeleton).branchGrid_eq]
    refine (Grid.size_ofList_le _).trans (length_branchEntries_le ?_)
    intro branch hbranch
    exact (length_branchCells_le skeleton hbranch).trans hbound
  · rw [(ofSkeleton skeleton).markerGrid_eq, ← length_markerEntries]
    exact Grid.size_ofList_le _

end SpatialIndex

end Arbor
