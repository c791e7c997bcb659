import Arbor.Space.Box
import Arbor.Symbols.EntryKind

namespace Arbor

/-- One drawn piece of a tree. `parent` is the place, in the same list, of the branch it grew
from; `depth` is the number of brackets around it. -/
structure Branch (α : Type) where
  base : Vector3 α
  tip : Vector3 α
  baseRadius : α
  tipRadius : α
  depth : Nat
  parent : Option Nat
  deriving DecidableEq, Repr

structure Marker (α : Type) where
  position : Vector3 α
  path : String
  kind : EntryKind
  depth : Nat
  radius : α
  direction : Vector3 α
  deriving DecidableEq, Repr

structure Skeleton (α : Type) where
  branches : Array (Branch α)
  markers : Array (Marker α)
  deriving DecidableEq, Repr

namespace Branch

variable {α : Type} [Scalar α]

def axis (branch : Branch α) : Vector3 α :=
  branch.tip - branch.base

def length (branch : Branch α) : α :=
  branch.base.distance branch.tip

def meanRadius (branch : Branch α) : α :=
  0.5 * (branch.baseRadius + branch.tipRadius)

end Branch

namespace Skeleton

variable {α : Type} [Scalar α]

def points (skeleton : Skeleton α) : List (Vector3 α) :=
  skeleton.branches.toList.flatMap (fun branch => [branch.base, branch.tip]) ++
    skeleton.markers.toList.map (·.position)

def bounds (skeleton : Skeleton α) : Box α :=
  (Box.ofPoints? skeleton.points).getD .origin

def isEmpty (skeleton : Skeleton α) : Bool :=
  skeleton.branches.isEmpty && skeleton.markers.isEmpty

end Skeleton

namespace Skeleton

variable {α : Type} {skeleton other : Skeleton α}

theorem mem_points_of_branch {branch : Branch α} (h : branch ∈ skeleton.branches) :
    branch.base ∈ skeleton.points ∧ branch.tip ∈ skeleton.points := by
  have hends (p : Vector3 α) (hp : p ∈ [branch.base, branch.tip]) : p ∈ skeleton.points :=
    List.mem_append_left _ (List.mem_flatMap.2 ⟨branch, Array.mem_toList_iff.2 h, hp⟩)
  exact ⟨hends _ List.mem_cons_self, hends _ (List.mem_cons_of_mem _ List.mem_cons_self)⟩

theorem mem_points_of_marker {marker : Marker α} (h : marker ∈ skeleton.markers) :
    marker.position ∈ skeleton.points :=
  List.mem_append_right _ (List.mem_map_of_mem (Array.mem_toList_iff.2 h))

theorem points_ne_nil (h : ¬skeleton.isEmpty) : skeleton.points ≠ [] := by
  rw [isEmpty, Bool.and_eq_true, Array.isEmpty_iff, Array.isEmpty_iff] at h
  by_cases hbranches : skeleton.branches = #[]
  · obtain ⟨marker, hmarker⟩ :=
      Array.exists_mem_of_ne_empty _ fun hmarkers => h ⟨hbranches, hmarkers⟩
    exact List.ne_nil_of_mem (mem_points_of_marker hmarker)
  · obtain ⟨branch, hbranch⟩ := Array.exists_mem_of_ne_empty _ hbranches
    exact List.ne_nil_of_mem (mem_points_of_branch hbranch).1

/-- Trees that differ in the order of their branches and markers have the same points. -/
theorem points_perm (hbranches : skeleton.branches.toList.Perm other.branches.toList)
    (hmarkers : skeleton.markers.toList.Perm other.markers.toList) :
    skeleton.points.Perm other.points :=
  (hbranches.flatMap_right _).append (hmarkers.map _)

end Skeleton

def Branch.childrenOf {α : Type} (branches : Array (Branch α)) (parent : Nat) : List Nat :=
  (List.range branches.size).filter fun i => branches[i]?.any (·.parent == some parent)

namespace Branch

variable {α : Type} {branches : Array (Branch α)} {parent i : Nat}

/-- The children of a branch are those that name it as their parent. -/
theorem mem_childrenOf :
    i ∈ childrenOf branches parent ↔ branches[i]?.bind (·.parent) = some parent := by
  simp only [childrenOf, List.mem_filter, List.mem_range, Option.any_eq_true_iff_get]
  constructor
  · rintro ⟨-, hs, hp⟩
    rw [← Option.some_get hs]
    simpa using hp
  · intro h
    obtain ⟨branch, hb, hp⟩ := Option.bind_eq_some_iff.1 h
    have hlt : i < branches.size := by
      obtain ⟨hi, -⟩ := Array.getElem?_eq_some_iff.1 hb
      exact hi
    exact ⟨hlt, by simp [hb], by simp [hb, hp]⟩

theorem lt_size_of_mem_childrenOf (h : i ∈ childrenOf branches parent) : i < branches.size :=
  List.mem_range.1 (List.mem_filter.1 h).1

theorem pairwise_childrenOf (branches : Array (Branch α)) (parent : Nat) :
    (childrenOf branches parent).Pairwise (· < ·) :=
  List.pairwise_lt_range.filter _

theorem nodup_childrenOf (branches : Array (Branch α)) (parent : Nat) :
    (childrenOf branches parent).Nodup :=
  (pairwise_childrenOf branches parent).imp Nat.ne_of_lt

/-- Something grows from a branch just where some branch names it as its parent. -/
theorem childrenOf_ne_nil_iff :
    childrenOf branches parent ≠ [] ↔ ∃ branch ∈ branches, branch.parent = some parent := by
  constructor
  · intro h
    obtain ⟨i, hi⟩ := List.exists_mem_of_ne_nil _ h
    obtain ⟨branch, hbranch, hparent⟩ := Option.bind_eq_some_iff.1 (mem_childrenOf.1 hi)
    exact ⟨branch, Array.mem_of_getElem? hbranch, hparent⟩
  · rintro ⟨branch, hbranch, hparent⟩
    obtain ⟨i, hi⟩ := Array.getElem?_of_mem hbranch
    have hmem : i ∈ childrenOf branches parent := by
      rw [mem_childrenOf, hi, Option.bind_some, hparent]
    exact List.ne_nil_of_mem hmem

end Branch

end Arbor
