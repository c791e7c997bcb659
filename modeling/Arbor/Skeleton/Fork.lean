import Arbor.Skeleton.Basic

namespace Arbor

structure Fork (α : Type) where
  point : Vector3 α
  children : List Nat
  parent : Nat
  deriving DecidableEq, Repr

namespace Fork

variable {α : Type}

def at? (branches : Array (Branch α)) (parent : Nat) : Option (Fork α) := do
  let branch ← branches[parent]?
  let children := Branch.childrenOf branches parent
  if children.isEmpty then none else some ⟨branch.tip, children, parent⟩

/-- There is a fork at the tip of a branch that has children. -/
theorem at?_eq_some_iff {branches : Array (Branch α)} {parent : Nat} {fork : Fork α} :
    at? branches parent = some fork ↔ ∃ branch, branches[parent]? = some branch ∧
      Branch.childrenOf branches parent ≠ [] ∧
      fork = ⟨branch.tip, Branch.childrenOf branches parent, parent⟩ := by
  rw [at?, Option.bind_eq_bind, Option.bind_eq_some_iff]
  refine exists_congr fun branch => and_congr_right fun _ => ?_
  by_cases hchildren : Branch.childrenOf branches parent = []
  · simp [hchildren]
  · rw [if_neg (by simpa using hchildren), Option.some_inj, and_iff_right hchildren]
    exact eq_comm

/-- Follows a trunk upwards from `tip` through the branches behind it: each goes on while it has
depth zero and names the one before as its parent. -/
def trunkTipFrom (tip place : Nat) : List (Branch α) → Nat
  | [] => tip
  | branch :: rest =>
    if branch.depth = 0 ∧ branch.parent = some tip then trunkTipFrom place (place + 1) rest else tip

def trunkTip? (branches : Array (Branch α)) : Option Nat :=
  match branches.toList with
  | [] => none
  | _ :: rest => some (trunkTipFrom 0 1 rest)

end Fork

end Arbor
