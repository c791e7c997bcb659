import Arbor.Landmark.Platform
import Arbor.Skeleton.Fork
import Arbor.Space.Rotation

namespace Arbor

structure Anchor (α : Type) where
  position : Vector3 α
  /-- The direction of the branch, zero where it has none. -/
  direction : Vector3 α
  branch : Nat
  deriving DecidableEq, Repr

/-- A bowl seated on a fork. -/
structure Nest (α : Type) where
  /-- The place of the branch at whose tip the fork is. -/
  parent : Nat
  position : Vector3 α
  radius : α
  up : Vector3 α
  /-- The rotation that takes the upward axis to `up`. -/
  orientation : Rotation α
  anchors : List (Anchor α)
  nearView : α
  farView : α
  depth : α
  deriving DecidableEq, Repr

namespace Nest

variable {α : Type} [Scalar α]

def radiusFactor : α := 1.3

def depthFactor : α := 0.3

def nearViewFactor : α := 1.5

def farViewFactor : α := 5.0

def elevationFactor : α := 0.5

def anchorOf (branch : Branch α) (place : Nat) : Anchor α :=
  ⟨branch.base, branch.axis.normalizeOrZero, place⟩

def anchorsOf (branches : Array (Branch α)) (places : List Nat) : List (Anchor α) :=
  places.filterMap fun i => branches[i]?.map fun branch => anchorOf branch i

theorem mem_anchorsOf {branches : Array (Branch α)} {places : List Nat} {anchor : Anchor α} :
    anchor ∈ anchorsOf branches places ↔
      ∃ i ∈ places, ∃ branch, branches[i]? = some branch ∧ anchorOf branch i = anchor := by
  simp only [anchorsOf, List.mem_filterMap, Option.map_eq_some_iff]

def spread (point : Vector3 α) (anchors : List (Anchor α)) : α :=
  anchors.foldl (fun widest anchor => Scalar.maxNum widest (point.distance anchor.position)) 0.0

def onFork (fork : Fork α) (branch : Branch α) (anchors : List (Anchor α)) (platform : Platform α)
    [Trig α] : Nest α :=
  let up := branch.axis.normalize?.getD .unitY
  let radius :=
    Scalar.maxNum (spread fork.point anchors) (platform.trunkRadius * 2.0) * radiusFactor
  { parent := fork.parent
    position := fork.point + up.scale (radius * elevationFactor)
    radius
    up
    orientation := .arcFromUp up
    anchors
    nearView := radius * nearViewFactor
    farView := Scalar.maxNum (platform.treeSpan * 0.5) (radius * farViewFactor)
    depth := radius * depthFactor }

def at? [Trig α] (branches : Array (Branch α)) (parent : Nat) (platform : Platform α) :
    Option (Nest α) := do
  let fork ← Fork.at? branches parent
  let branch ← branches[parent]?
  return onFork fork branch (anchorsOf branches fork.children) platform

/-- On a fork there is a nest, with an anchor for each branch that leaves it. -/
theorem at?_of_fork [Trig α] {branches : Array (Branch α)} {parent : Nat} {fork : Fork α}
    {branch : Branch α} (hfork : Fork.at? branches parent = some fork)
    (hbranch : branches[parent]? = some branch) (platform : Platform α) :
    at? branches parent platform =
      some (onFork fork branch (anchorsOf branches fork.children) platform) := by
  rw [at?, hfork, hbranch]
  rfl

/-- A nest is seated on the fork at the tip of a branch, and only there. -/
theorem at?_eq_some_iff [Trig α] {branches : Array (Branch α)} {parent : Nat}
    {platform : Platform α} {nest : Nest α} : at? branches parent platform = some nest ↔
      ∃ branch, branches[parent]? = some branch ∧ Branch.childrenOf branches parent ≠ [] ∧
        nest = onFork ⟨branch.tip, Branch.childrenOf branches parent, parent⟩ branch
          (anchorsOf branches (Branch.childrenOf branches parent)) platform := by
  constructor
  · intro h
    obtain ⟨fork, hfork, h⟩ := Option.bind_eq_some_iff.1 h
    obtain ⟨branch, hbranch, hchildren, rfl⟩ := Fork.at?_eq_some_iff.1 hfork
    rw [hbranch] at h
    exact ⟨branch, hbranch, hchildren, (Option.some.inj h).symm⟩
  · rintro ⟨branch, hbranch, hchildren, rfl⟩
    exact at?_of_fork (Fork.at?_eq_some_iff.2 ⟨branch, hbranch, hchildren, rfl⟩) hbranch platform

def root? [Trig α] (branches : Array (Branch α)) (platform : Platform α) : Option (Nest α) := do
  let tip ← Fork.trunkTip? branches
  at? branches tip platform

end Nest

end Arbor
