import Arbor.Proofs.Scalar.Order
import Arbor.Skeleton.Basic

/-! The least box around some points. Each of its faces is as far out as one of the points and no
further, so the box depends on which points there are and not on their order. -/

namespace Arbor

inductive Axis
  | x
  | y
  | z
  deriving DecidableEq, Repr

def Vector3.coordinate {α : Type} (v : Vector3 α) : Axis → α
  | .x => v.x
  | .y => v.y
  | .z => v.z

structure IsFirst {α : Type} (before : α → α → Prop) (a : α) (list : List α) : Prop where
  mem : a ∈ list
  before : ∀ b ∈ list, before a b

/-- The first of some entries and one more is the one of the two that comes before the other. -/
theorem IsFirst.concat {α : Type} {before : α → α → Prop} {a b c : α} {list : List α}
    (h : IsFirst before a list) (hc : c = a ∨ c = b) (hca : before c a) (hcb : before c b)
    (htrans : ∀ d ∈ list, before c a → before a d → before c d) :
    IsFirst before c (list ++ [b]) := by
  constructor
  · rcases hc with rfl | rfl
    · exact List.mem_append_left _ h.mem
    · exact List.mem_append_right _ (List.mem_singleton_self _)
  · rw [List.forall_mem_append, List.forall_mem_singleton]
    exact ⟨fun d hd => htrans d hd hca (h.before d hd), hcb⟩

variable {α : Type} [Scalar α]

def Vector3.IsNumber (v : Vector3 α) : Prop :=
  ∀ axis, Scalar.isNaN (v.coordinate axis) = false

theorem Vector3.isNumber_iff {v : Vector3 α} : v.IsNumber ↔
    Scalar.isNaN v.x = false ∧ Scalar.isNaN v.y = false ∧ Scalar.isNaN v.z = false := by
  constructor
  · exact fun h => ⟨h .x, h .y, h .z⟩
  · rintro ⟨hx, hy, hz⟩ axis
    cases axis <;> assumption

instance (v : Vector3 α) : Decidable v.IsNumber :=
  decidable_of_iff _ Vector3.isNumber_iff.symm

namespace Box

def Agree (box other : Box α) : Prop :=
  ∀ axis, Scalar.Agree (box.lower.coordinate axis) (other.lower.coordinate axis) ∧
    Scalar.Agree (box.upper.coordinate axis) (other.upper.coordinate axis)

/-- Whether the faces of a box are the furthest coordinates of some points. -/
structure IsHull (box : Box α) (points : List (Vector3 α)) : Prop where
  lower : ∀ axis, IsFirst (· ≤ ·) (box.lower.coordinate axis) (points.map (·.coordinate axis))
  upper : ∀ axis, IsFirst (· ≥ ·) (box.upper.coordinate axis) (points.map (·.coordinate axis))

/-- A point moves the lower faces that are not below it. -/
theorem lower_insert (box : Box α) (p : Vector3 α) (axis : Axis) :
    (box.insert p).lower.coordinate axis =
      if box.lower.coordinate axis < p.coordinate axis then box.lower.coordinate axis
      else p.coordinate axis := by
  cases axis <;> rfl

/-- A point moves the upper faces that are not above it. -/
theorem upper_insert (box : Box α) (p : Vector3 α) (axis : Axis) :
    (box.insert p).upper.coordinate axis =
      if p.coordinate axis < box.upper.coordinate axis then box.upper.coordinate axis
      else p.coordinate axis := by
  cases axis <;> rfl

variable {box other : Box α} {points points' : List (Vector3 α)}

/-- A box contains what lies between its faces along each axis. -/
theorem contains_iff {p : Vector3 α} : box.contains p ↔
    ∀ axis, box.lower.coordinate axis ≤ p.coordinate axis ∧
      p.coordinate axis ≤ box.upper.coordinate axis := by
  rw [contains, decide_eq_true_iff]
  constructor
  · rintro ⟨⟨hx, hy, hz⟩, hx', hy', hz'⟩ axis
    cases axis
    exacts [⟨hx, hx'⟩, ⟨hy, hy'⟩, ⟨hz, hz'⟩]
  · exact fun h => ⟨⟨(h .x).1, (h .y).1, (h .z).1⟩, (h .x).2, (h .y).2, (h .z).2⟩

namespace IsHull

/-- The corners of a hull of points with numbers have numbers. -/
theorem isNumber (h : box.IsHull points) (hpoints : ∀ p ∈ points, p.IsNumber) :
    box.lower.IsNumber ∧ box.upper.IsNumber := by
  constructor
  · intro axis
    obtain ⟨p, hp, heq⟩ := List.mem_map.1 (h.lower axis).mem
    rw [← heq]
    exact hpoints p hp axis
  · intro axis
    obtain ⟨p, hp, heq⟩ := List.mem_map.1 (h.upper axis).mem
    rw [← heq]
    exact hpoints p hp axis

theorem contains (h : box.IsHull points) {p : Vector3 α} (hp : p ∈ points) : box.contains p := by
  rw [contains_iff]
  exact fun axis => ⟨(h.lower axis).before _ (List.mem_map_of_mem hp),
    (h.upper axis).before _ (List.mem_map_of_mem hp)⟩

/-- A box that contains the points contains the least box around them. -/
theorem contains_corners (h : box.IsHull points) (hother : ∀ p ∈ points, other.contains p) :
    other.contains box.lower ∧ other.contains box.upper := by
  -- Each coordinate of a corner is one of a point that the other box contains.
  have hbetween (axis : Axis) : ∀ a ∈ points.map (·.coordinate axis),
      other.lower.coordinate axis ≤ a ∧ a ≤ other.upper.coordinate axis := by
    rw [List.forall_mem_map]
    exact fun p hp => contains_iff.1 (hother p hp) axis
  rw [contains_iff, contains_iff]
  exact ⟨fun axis => hbetween axis _ (h.lower axis).mem,
    fun axis => hbetween axis _ (h.upper axis).mem⟩

/-- Boxes around the same points agree, in whatever order the points come. -/
theorem agree (h : box.IsHull points) (h' : other.IsHull points')
    (hpoints : ∀ p, p ∈ points ↔ p ∈ points') : box.Agree other := by
  intro axis
  have hsame : ∀ a, a ∈ points.map (·.coordinate axis) ↔ a ∈ points'.map (·.coordinate axis) := by
    intro a
    simp only [List.mem_map, hpoints]
  have hlower := h.lower axis
  have hlower' := h'.lower axis
  have hupper := h.upper axis
  have hupper' := h'.upper axis
  exact ⟨⟨hlower.before _ ((hsame _).2 hlower'.mem), hlower'.before _ ((hsame _).1 hlower.mem)⟩,
    ⟨hupper'.before _ ((hsame _).1 hupper.mem), hupper.before _ ((hsame _).2 hupper'.mem)⟩⟩

end IsHull

open Scalar (IsOrdered)

variable [IsOrdered α]

theorem isHull_singleton {p : Vector3 α} (hp : p.IsNumber) : IsHull ⟨p, p⟩ [p] := by
  constructor
  · intro axis
    refine ⟨List.mem_singleton_self _, ?_⟩
    rw [List.map_singleton, List.forall_mem_singleton]
    exact IsOrdered.le_refl (hp axis)
  · intro axis
    refine ⟨List.mem_singleton_self _, ?_⟩
    rw [List.map_singleton, List.forall_mem_singleton]
    exact IsOrdered.le_refl (hp axis)

namespace IsHull

/-- A box stays a hull when a point is put in, if all coordinates are numbers. -/
theorem insert (h : box.IsHull points) (hpoints : ∀ p ∈ points, p.IsNumber) {p : Vector3 α}
    (hp : p.IsNumber) : (box.insert p).IsHull (points ++ [p]) := by
  obtain ⟨hlower, hupper⟩ := h.isNumber hpoints
  have hnumber (axis : Axis) :
      ∀ a ∈ points.map (·.coordinate axis), Scalar.isNaN a = false := by
    rw [List.forall_mem_map]
    exact fun q hq => hpoints q hq axis
  constructor
  · intro axis
    rw [List.map_append, List.map_singleton, lower_insert]
    split
    case isTrue hlt =>
      exact (h.lower axis).concat (.inl rfl) (IsOrdered.le_refl (hlower axis))
        (IsOrdered.le_of_lt (hlower axis) (hp axis) hlt) fun _ _ _ hle => hle
    case isFalse hge =>
      exact (h.lower axis).concat (.inr rfl) (IsOrdered.le_of_not_lt (hlower axis) (hp axis) hge)
        (IsOrdered.le_refl (hp axis))
        fun a ha => IsOrdered.le_trans (hp axis) (hlower axis) (hnumber axis a ha)
  · intro axis
    rw [List.map_append, List.map_singleton, upper_insert]
    split
    case isTrue hlt =>
      exact (h.upper axis).concat (.inl rfl) (IsOrdered.le_refl (hupper axis))
        (IsOrdered.le_of_lt (hp axis) (hupper axis) hlt) fun _ _ _ hle => hle
    case isFalse hge =>
      exact (h.upper axis).concat (.inr rfl) (IsOrdered.le_of_not_lt (hp axis) (hupper axis) hge)
        (IsOrdered.le_refl (hp axis))
        fun a ha hle hle' =>
          IsOrdered.le_trans (hnumber axis a ha) (hupper axis) (hp axis) hle' hle

/-- A box stays a hull when points are put in one after the other. -/
theorem foldl_insert (h : box.IsHull points) (hpoints : ∀ p ∈ points, p.IsNumber)
    (hmore : ∀ p ∈ points', p.IsNumber) :
    (points'.foldl Box.insert box).IsHull (points ++ points') := by
  induction points' generalizing box points with
  | nil => rwa [List.append_nil]
  | cons p rest ih =>
    rw [List.forall_mem_cons] at hmore
    have hseen : ∀ q ∈ points ++ [p], q.IsNumber := by
      rw [List.forall_mem_append, List.forall_mem_singleton]
      exact ⟨hpoints, hmore.1⟩
    rw [List.foldl_cons, List.append_cons]
    exact ih (h.insert hpoints hmore.1) hseen hmore.2

end IsHull

theorem agree_origin : Agree (origin : Box α) origin := by
  have hzero : (Vector3.zero : Vector3 α).IsNumber := by
    intro axis
    cases axis <;> exact IsOrdered.isNaN_zero
  have hle (axis : Axis) := IsOrdered.le_refl (hzero axis)
  exact fun axis => ⟨⟨hle axis, hle axis⟩, ⟨hle axis, hle axis⟩⟩

end Box

namespace Skeleton

variable [Scalar.IsOrdered α] {skeleton other : Skeleton α}

/-- The bounds of a tree are the hull of its points, unless there are none. -/
theorem isHull_bounds (hne : skeleton.points ≠ []) (hnumber : ∀ p ∈ skeleton.points, p.IsNumber) :
    skeleton.bounds.IsHull skeleton.points := by
  obtain ⟨p, rest, hpoints⟩ := List.exists_cons_of_ne_nil hne
  rw [bounds, hpoints]
  rw [hpoints, List.forall_mem_cons] at hnumber
  have hfirst : ∀ q ∈ [p], q.IsNumber := List.forall_mem_singleton.2 hnumber.1
  exact (Box.isHull_singleton hnumber.1).foldl_insert hfirst hnumber.2

/-- Trees with the same points have the same bounds, unless some coordinate is no number. -/
theorem bounds_agree (hpoints : ∀ p, p ∈ skeleton.points ↔ p ∈ other.points)
    (hnumber : ∀ p ∈ skeleton.points, p.IsNumber) : skeleton.bounds.Agree other.bounds := by
  have hnumber' : ∀ p ∈ other.points, p.IsNumber := fun p hp => hnumber p ((hpoints p).2 hp)
  by_cases hempty : skeleton.points = []
  · have hempty' : other.points = [] := by
      rw [List.eq_nil_iff_forall_not_mem] at hempty ⊢
      exact fun p hp => hempty p ((hpoints p).2 hp)
    rw [bounds, bounds, hempty, hempty']
    exact Box.agree_origin
  · have hne : other.points ≠ [] := by
      obtain ⟨p, hp⟩ := List.exists_mem_of_ne_nil _ hempty
      exact List.ne_nil_of_mem ((hpoints p).1 hp)
    exact (isHull_bounds hempty hnumber).agree (isHull_bounds hne hnumber') hpoints

/-- The bounds of a tree contain both ends of its branches and the places of its markers, unless a
coordinate is no number. Each of their faces goes through one of these points, so any box that
contains them contains the bounds. The order of branches and markers makes no difference, except
which of two zeros a face may be at. -/
theorem bounds_isLeast (hne : ¬skeleton.isEmpty) (hnumber : ∀ p ∈ skeleton.points, p.IsNumber) :
    (∀ branch ∈ skeleton.branches,
      skeleton.bounds.contains branch.base ∧ skeleton.bounds.contains branch.tip) ∧
    (∀ marker ∈ skeleton.markers, skeleton.bounds.contains marker.position) ∧
    (∀ axis,
      (∃ p ∈ skeleton.points, p.coordinate axis = skeleton.bounds.lower.coordinate axis) ∧
      ∃ p ∈ skeleton.points, p.coordinate axis = skeleton.bounds.upper.coordinate axis) ∧
    (∀ box : Box α, (∀ p ∈ skeleton.points, box.contains p) →
      box.contains skeleton.bounds.lower ∧ box.contains skeleton.bounds.upper) ∧
    ∀ other : Skeleton α, skeleton.branches.toList.Perm other.branches.toList →
      skeleton.markers.toList.Perm other.markers.toList →
      skeleton.bounds.Agree other.bounds := by
  have hhull := isHull_bounds (points_ne_nil hne) hnumber
  refine ⟨fun branch hbranch => ?_, fun marker hmarker => ?_, fun axis => ⟨?_, ?_⟩,
    fun box => hhull.contains_corners, fun other hbranches hmarkers => ?_⟩
  · obtain ⟨hbase, htip⟩ := mem_points_of_branch hbranch
    exact ⟨hhull.contains hbase, hhull.contains htip⟩
  · exact hhull.contains (mem_points_of_marker hmarker)
  · exact List.mem_map.1 (hhull.lower axis).mem
  · exact List.mem_map.1 (hhull.upper axis).mem
  · exact bounds_agree (fun p => (points_perm hbranches hmarkers).mem_iff) hnumber

def shrub : Skeleton Float32 where
  branches := #[⟨⟨0.0, 0.0, 0.0⟩, ⟨0.0, 2.0, 0.0⟩, 0.2, 0.1, 0, none⟩,
    ⟨⟨-0.0, 2.0, 0.0⟩, ⟨0.0, 1.0 / 0.0, -0.0⟩, 0.1, 0.1, 0, none⟩]
  markers := #[⟨⟨-1.0, 1.0, 4.0⟩, "a", .file, 0, 0.1, .unitY⟩]

/-- The other way round, the lower face across the third axis is at the other zero. -/
theorem shrub_bounds_isLeast :
    ¬shrub.isEmpty ∧ (∀ p ∈ shrub.points, p.IsNumber) ∧
      (∀ branch ∈ shrub.branches,
        shrub.bounds.contains branch.base ∧ shrub.bounds.contains branch.tip) ∧
      shrub.bounds.Agree (⟨shrub.branches.reverse, shrub.markers⟩ : Skeleton Float32).bounds ∧
      shrub.bounds ≠ (⟨shrub.branches.reverse, shrub.markers⟩ : Skeleton Float32).bounds := by
  have hne : ¬shrub.isEmpty := by decide
  have hnumber : ∀ p ∈ shrub.points, p.IsNumber := by decide +kernel
  have hdiffer : shrub.bounds ≠
      (⟨shrub.branches.reverse, shrub.markers⟩ : Skeleton Float32).bounds := by decide +kernel
  obtain ⟨hbranches, -, -, -, hreorder⟩ := bounds_isLeast hne hnumber
  have hperm : shrub.branches.toList.Perm shrub.branches.reverse.toList := by
    rw [Array.toList_reverse]
    exact (List.reverse_perm _).symm
  exact ⟨hne, hnumber, hbranches, hreorder _ hperm (.refl _), hdiffer⟩

end Skeleton

end Arbor
