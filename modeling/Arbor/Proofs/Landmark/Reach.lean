import Mathlib.Data.List.Pairwise
import Mathlib.Tactic.Linarith
import Arbor.Landmark.Nest
import Arbor.Proofs.Scalar.Trig
import Arbor.Proofs.Space.Euclidean

/-! How far a nest reaches, in exact arithmetic. Its radius is taken from the branch that begins
furthest from the fork, so that although it is raised above the fork, its near view still encloses
the beginnings of all branches that grow there. -/

namespace Arbor

namespace Nest

/-- There is an anchor for each place, in the same order. -/
theorem map_branch_anchorsOf {α : Type} [Scalar α] {branches : Array (Branch α)} {places : List Nat}
    (h : ∀ i ∈ places, i < branches.size) :
    (anchorsOf branches places).map (·.branch) = places := by
  have hplace : ∀ i ∈ places,
      (branches[i]?.map (anchorOf · i)).map (·.branch) = some i := by
    intro i hi
    rw [Array.getElem?_eq_getElem (h i hi)]
    rfl
  rw [anchorsOf, List.map_filterMap, List.filterMap_congr hplace, List.filterMap_some]

/-- The spread is the least bound of the anchors' distances, and none is below zero. -/
theorem spread_le_iff {point : Vector3 ℝ} {anchors : List (Anchor ℝ)} {bound : ℝ} :
    spread point anchors ≤ bound ↔
      0 ≤ bound ∧ ∀ anchor ∈ anchors, point.distance anchor.position ≤ bound := by
  rw [spread, Scalar.foldl_maxNum_le_iff, Scalar.zero_real]

/-- The upward axis of a nest has length one, also where a branch without a length gives none. -/
theorem length_up (axis : Vector3 ℝ) : (axis.normalize?.getD .unitY).length = 1 := by
  cases h : axis.normalize? with
  | none => exact Vector3.length_unitY
  | some direction => exact Vector3.length_of_normalize? h

/-- Whether a nest holds a fork at a point: it is raised above the fork by half its radius, its near
view encloses the beginnings of all branches, and its views are wide enough for the tree. -/
structure Holds (nest : Nest ℝ) (point : Vector3 ℝ) (platform : Platform ℝ) : Prop where
  radius_nonneg : 0 ≤ nest.radius
  trunk_le : 1.3 * (2 * platform.trunkRadius) ≤ nest.radius
  length_up : nest.up.length = 1
  position_eq : nest.position = point + nest.up.scale (0.5 * nest.radius)
  distance_position : point.distance nest.position = 0.5 * nest.radius
  distance_anchor_le : ∀ anchor ∈ nest.anchors,
    point.distance anchor.position ≤ nest.radius / 1.3
  anchor_near : ∀ anchor ∈ nest.anchors, nest.position.distance anchor.position ≤ nest.nearView
  nearView_le : nest.nearView ≤ nest.farView
  span_le : platform.treeSpan / 2 ≤ nest.farView

section

variable [Trig ℝ] (fork : Fork ℝ) (branch : Branch ℝ) (anchors : List (Anchor ℝ))
  (platform : Platform ℝ)

/-- The radius of a nest is what its anchors and the trunk need, with a margin. -/
theorem radius_onFork : (onFork fork branch anchors platform).radius =
    max (spread fork.point anchors) (2 * platform.trunkRadius) * 1.3 := by
  rw [onFork, Scalar.maxNum_real, Scalar.two_real, mul_comm platform.trunkRadius]
  rfl

/-- A nest reaches three tenths beyond its farthest anchor at least. -/
theorem spread_mul_le_radius_onFork :
    spread fork.point anchors * 1.3 ≤ (onFork fork branch anchors platform).radius := by
  rw [radius_onFork]
  exact mul_le_mul_of_nonneg_right (le_max_left _ _) (by norm_num)

theorem radius_onFork_nonneg : 0 ≤ (onFork fork branch anchors platform).radius := by
  have hspread : 0 ≤ spread fork.point anchors := (spread_le_iff.1 le_rfl).1
  have hradius := spread_mul_le_radius_onFork fork branch anchors platform
  linarith

/-- A nest is raised above its fork by half its radius, whichever way it faces. -/
theorem distance_position_onFork :
    fork.point.distance (onFork fork branch anchors platform).position =
      0.5 * (onFork fork branch anchors platform).radius := by
  have hradius := radius_onFork_nonneg fork branch anchors platform
  have hraise : 0 ≤ 0.5 * (onFork fork branch anchors platform).radius :=
    mul_nonneg (by norm_num) hradius
  have hposition : (onFork fork branch anchors platform).position = fork.point +
      (onFork fork branch anchors platform).up.scale
        ((onFork fork branch anchors platform).radius * 0.5) := rfl
  have hup : (onFork fork branch anchors platform).up.length = 1 := length_up branch.axis
  rw [hposition, Vector3.distance_add, Vector3.length_scale, hup, mul_one, mul_comm,
    abs_of_nonneg hraise]

variable {anchors}

theorem distance_anchor_mul_le {anchor : Anchor ℝ} (h : anchor ∈ anchors) :
    fork.point.distance anchor.position * 1.3 ≤ (onFork fork branch anchors platform).radius := by
  have hspread : fork.point.distance anchor.position ≤ spread fork.point anchors :=
    (spread_le_iff.1 le_rfl).2 anchor h
  calc fork.point.distance anchor.position * 1.3
      ≤ spread fork.point anchors * 1.3 := mul_le_mul_of_nonneg_right hspread (by norm_num)
    _ ≤ _ := spread_mul_le_radius_onFork fork branch anchors platform

/-- A nest is raised by so little that its near view still encloses what the fork is spread to. -/
theorem distance_anchor_le_nearView {anchor : Anchor ℝ} (h : anchor ∈ anchors) :
    (onFork fork branch anchors platform).position.distance anchor.position ≤
      (onFork fork branch anchors platform).nearView := by
  have hradius := radius_onFork_nonneg fork branch anchors platform
  have hraise := distance_position_onFork fork branch anchors platform
  have hreach := distance_anchor_mul_le fork branch platform h
  have hnear : (onFork fork branch anchors platform).nearView =
      (onFork fork branch anchors platform).radius * 1.5 := rfl
  generalize onFork fork branch anchors platform = nest at *
  -- Half a radius up and `1 / 1.3` of one to the anchor make less than one and a half.
  calc nest.position.distance anchor.position
      ≤ nest.position.distance fork.point + fork.point.distance anchor.position :=
        Vector3.distance_triangle _ _ _
    _ = 0.5 * nest.radius + fork.point.distance anchor.position := by
        rw [Vector3.distance_comm, hraise]
    _ ≤ nest.nearView := by
        rw [hnear]
        linarith

/-- A nest put on a fork holds it, whatever its anchors are. -/
theorem holds_onFork : (onFork fork branch anchors platform).Holds fork.point platform := by
  have hradius := radius_onFork_nonneg fork branch anchors platform
  have hfar : (onFork fork branch anchors platform).farView =
      max (platform.treeSpan * 0.5) ((onFork fork branch anchors platform).radius * 5.0) :=
    Scalar.maxNum_real _ _
  refine ⟨hradius, ?_, length_up branch.axis, ?_,
    distance_position_onFork fork branch anchors platform,
    fun anchor h => (le_div_iff₀ (by norm_num)).2 (distance_anchor_mul_le fork branch platform h),
    fun anchor h => distance_anchor_le_nearView fork branch platform h, ?_, ?_⟩
  · have htrunk := le_max_right (spread fork.point anchors) (2 * platform.trunkRadius)
    rw [radius_onFork]
    linarith
  · rw [mul_comm]
    rfl
  · have hnear : (onFork fork branch anchors platform).nearView =
        (onFork fork branch anchors platform).radius * 1.5 := rfl
    rw [hfar, hnear]
    exact le_max_of_le_right (by linarith)
  · rw [hfar]
    exact le_max_of_le_left (by linarith)

end

/-- There is a nest on a branch if and only if some branch names it as its parent. It has an anchor
for each of these branches, in drawing order and where the branch begins, and it holds the fork at
the tip of the branch it is seated on. -/
theorem at?_holds [Trig ℝ] (branches : Array (Branch ℝ)) (parent : Nat) (platform : Platform ℝ) :
    ((at? branches parent platform).isSome ↔
      parent < branches.size ∧ ∃ branch ∈ branches, branch.parent = some parent) ∧
    ∀ nest, at? branches parent platform = some nest →
      (nest.anchors.map (·.branch)).Pairwise (· < ·) ∧
      (∀ i, i ∈ nest.anchors.map (·.branch) ↔ branches[i]?.bind (·.parent) = some parent) ∧
      (∀ anchor ∈ nest.anchors, branches[anchor.branch]?.map (·.base) = some anchor.position) ∧
      ∃ branch, branches[parent]? = some branch ∧ nest.Holds branch.tip platform := by
  constructor
  · rw [Option.isSome_iff_exists, ← Branch.childrenOf_ne_nil_iff]
    constructor
    · rintro ⟨nest, hnest⟩
      obtain ⟨branch, hbranch, hchildren, -⟩ := at?_eq_some_iff.1 hnest
      exact ⟨(Array.getElem?_eq_some_iff.1 hbranch).1, hchildren⟩
    · rintro ⟨hlt, hchildren⟩
      exact ⟨_, at?_eq_some_iff.2 ⟨_, Array.getElem?_eq_getElem hlt, hchildren, rfl⟩⟩
  · intro nest hnest
    obtain ⟨branch, hbranch, -, rfl⟩ := at?_eq_some_iff.1 hnest
    have hplaces : (anchorsOf branches (Branch.childrenOf branches parent)).map (·.branch) =
        Branch.childrenOf branches parent :=
      map_branch_anchorsOf fun i hi => Branch.lt_size_of_mem_childrenOf hi
    refine ⟨?_, ?_, ?_, branch, hbranch, holds_onFork _ branch platform⟩
    · rw [onFork, hplaces]
      exact Branch.pairwise_childrenOf branches parent
    · intro i
      rw [onFork, hplaces, Branch.mem_childrenOf]
    · intro anchor hanchor
      obtain ⟨i, -, child, hchild, rfl⟩ := mem_anchorsOf.1 hanchor
      rw [anchorOf, hchild, Option.map_some]

noncomputable def crotch : Array (Branch ℝ) :=
  #[⟨.zero, .zero, 1, 1, 0, none⟩, ⟨.zero, .unitX, 1, 1, 1, some 0⟩,
    ⟨⟨4.5, 0, 0⟩, .unitZ, 1, 1, 1, some 0⟩]

/-- The fork of a branch without a length, where one of the anchors begins elsewhere. -/
theorem crotch_holds : ∃ nest, at? crotch 0 .fallback = some nest ∧ nest.Holds .zero .fallback ∧
    ∃ anchor ∈ nest.anchors, anchor.branch = 2 ∧ anchor.position = ⟨4.5, 0, 0⟩ ∧
      nest.position.distance ⟨4.5, 0, 0⟩ ≤ nest.nearView := by
  obtain ⟨hsome, hnest⟩ := at?_holds crotch 0 .fallback
  have htwig : (⟨.zero, .unitX, 1, 1, 1, some 0⟩ : Branch ℝ) ∈ crotch :=
    Array.mem_of_getElem? (i := 1) rfl
  obtain ⟨nest, h⟩ := Option.isSome_iff_exists.1 (hsome.2 ⟨Nat.zero_lt_succ 2, _, htwig, rfl⟩)
  obtain ⟨-, hmem, hbase, branch, hbranch, hholds⟩ := hnest nest h
  obtain rfl : _ = branch := Option.some.inj hbranch
  obtain ⟨anchor, hanchor, hplace⟩ := List.mem_map.1 ((hmem 2).2 rfl)
  have hposition : anchor.position = ⟨4.5, 0, 0⟩ := by
    have hat := hbase anchor hanchor
    rw [hplace] at hat
    exact (Option.some.inj hat).symm
  have hnear := hholds.anchor_near anchor hanchor
  rw [hposition] at hnear
  exact ⟨nest, h, hholds, anchor, hanchor, hplace, hposition, hnear⟩

end Nest

end Arbor
