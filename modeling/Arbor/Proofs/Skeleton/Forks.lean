import Mathlib.Algebra.Order.Ring.Nat
import Mathlib.Data.List.Nodup
import Arbor.Proofs.Turtle.Rooted
import Arbor.Scalar.Binary
import Arbor.Skeleton.Fork

/-! The forks of a drawn tree. Every branch grows from an earlier one or from nothing, so the forks
share out among them the branches that have a parent, and the way from child to parent ends. -/

namespace Arbor

variable {α : Type}

namespace Branch

def parentAt? (branches : Array (Branch α)) (place : Nat) : Option Nat :=
  branches[place]?.bind (·.parent)

def ancestorAt? (branches : Array (Branch α)) : Nat → Nat → Option Nat
  | 0, place => some place
  | steps + 1, place => (parentAt? branches place).bind (ancestorAt? branches steps)

def AreGrown (branches : Array (Branch α)) : Prop :=
  ∀ i j, parentAt? branches i = some j → j < i

variable {branches : Array (Branch α)} {i j : Nat}

theorem lt_size_of_parentAt? (h : parentAt? branches i = some j) : i < branches.size := by
  obtain ⟨branch, hbranch, -⟩ := Option.bind_eq_some_iff.1 h
  exact (Array.getElem?_eq_some_iff.1 hbranch).1

theorem parentAt?_of_getElem? {branch : Branch α} (h : branches[i]? = some branch) :
    parentAt? branches i = branch.parent := by
  rw [parentAt?, h, Option.bind_some]

/-- The parents by place are those of the branches in drawing order. -/
theorem map_parentAt?_range (branches : Array (Branch α)) :
    (List.range branches.size).map (parentAt? branches) = branches.toList.map (·.parent) := by
  apply List.ext_getElem
  · simp
  · intro i hi hi'
    have hlt : i < branches.size := by simpa using hi
    rw [List.getElem_map, List.getElem_range, List.getElem_map, Array.getElem_toList,
      parentAt?_of_getElem? (Array.getElem?_eq_getElem hlt)]

/-- The way from child to parent ends at a branch without a parent. -/
theorem AreGrown.exists_ancestorAt? (h : AreGrown branches) (hi : i < branches.size) :
    ∃ steps root branch, ancestorAt? branches steps i = some root ∧
      branches[root]? = some branch ∧ branch.parent = none := by
  induction i using Nat.strongRecOn with
  | ind i ih =>
    have hbranch := Array.getElem?_eq_getElem hi
    cases hparent : branches[i].parent with
    | none => exact ⟨0, i, _, rfl, hbranch, hparent⟩
    | some j =>
      -- The parent comes earlier, so its own way up has an end.
      have hstep : parentAt? branches i = some j :=
        (parentAt?_of_getElem? hbranch).trans hparent
      have hlt : j < i := h i j hstep
      obtain ⟨steps, root, branch, hroot, hends⟩ := ih j hlt (Nat.lt_trans hlt hi)
      refine ⟨steps + 1, root, branch, ?_, hends⟩
      rw [ancestorAt?, hstep, Option.bind_some, hroot]

/-- The children of all branches are the branches that have a parent, each of them once. -/
theorem AreGrown.flatMap_childrenOf_perm (h : AreGrown branches) :
    ((List.range branches.size).flatMap (childrenOf branches)).Perm
      ((List.range branches.size).filter fun i => (parentAt? branches i).isSome) := by
  have hnodup : ((List.range branches.size).flatMap (childrenOf branches)).Nodup := by
    rw [List.nodup_flatMap]
    refine ⟨fun i _ => nodup_childrenOf branches i, List.nodup_range.imp ?_⟩
    -- A branch names one parent only.
    intro i j hne child hi hj
    rw [mem_childrenOf] at hi hj
    exact hne (Option.some.inj (hi.symm.trans hj))
  rw [List.perm_ext_iff_of_nodup hnodup (List.nodup_range.filter _)]
  intro child
  simp only [List.mem_flatMap, List.mem_filter, List.mem_range, mem_childrenOf]
  constructor
  · rintro ⟨i, -, hparent⟩
    exact ⟨lt_size_of_parentAt? hparent, Option.isSome_iff_exists.2 ⟨i, hparent⟩⟩
  · rintro ⟨hlt, hsome⟩
    obtain ⟨i, hparent⟩ := Option.isSome_iff_exists.1 hsome
    exact ⟨i, Nat.lt_trans (h child i hparent) hlt, hparent⟩

end Branch

namespace Fork

def all (branches : Array (Branch α)) : List (Fork α) :=
  (List.range branches.size).filterMap (at? branches)

variable {branches : Array (Branch α)} {i : Nat} {fork : Fork α}

theorem children_at? (h : at? branches i = some fork) :
    fork.children = Branch.childrenOf branches i := by
  obtain ⟨branch, -, -, rfl⟩ := at?_eq_some_iff.1 h
  rfl

/-- There is a fork where a branch has children, and nowhere else. -/
theorem isSome_at?_iff :
    (at? branches i).isSome ↔ i < branches.size ∧ Branch.childrenOf branches i ≠ [] := by
  rw [Option.isSome_iff_exists]
  constructor
  · rintro ⟨fork, hfork⟩
    obtain ⟨branch, hbranch, hne, -⟩ := at?_eq_some_iff.1 hfork
    exact ⟨(Array.getElem?_eq_some_iff.1 hbranch).1, hne⟩
  · rintro ⟨hlt, hne⟩
    exact ⟨_, at?_eq_some_iff.2 ⟨_, Array.getElem?_eq_getElem hlt, hne, rfl⟩⟩

/-- The list of all forks leaves none out. -/
theorem mem_all : fork ∈ all branches ↔ ∃ i, at? branches i = some fork := by
  rw [all, List.mem_filterMap]
  constructor
  · rintro ⟨i, -, hfork⟩
    exact ⟨i, hfork⟩
  · rintro ⟨i, hfork⟩
    have hlt := (isSome_at?_iff.1 (Option.isSome_iff_exists.2 ⟨fork, hfork⟩)).1
    exact ⟨i, List.mem_range.2 hlt, hfork⟩

/-- The forks have all children between them: a branch without a fork has none. -/
theorem flatMap_children_all (branches : Array (Branch α)) :
    (all branches).flatMap (·.children) =
      (List.range branches.size).flatMap (Branch.childrenOf branches) := by
  rw [all, List.filterMap_eq_flatMap_toList, List.flatMap_assoc]
  apply List.flatMap_congr
  intro i hi
  cases hfork : at? branches i with
  | some fork => rw [Option.toList_some, List.flatMap_singleton, children_at? hfork]
  | none =>
    -- A branch in range without a fork is one from which nothing grows.
    have hnone : ¬((at? branches i).isSome = true) := by simp [hfork]
    rw [isSome_at?_iff, not_and, not_not] at hnone
    rw [hnone (List.mem_range.1 hi), Option.toList_none, List.flatMap_nil]

/-- Whether the forks of some branches share out those that have a parent. -/
structure ShareOut (branches : Array (Branch α)) : Prop where
  /-- A fork is found just at the branches from which others grow. -/
  isSome_at? : ∀ i,
    (at? branches i).isSome ↔ i < branches.size ∧ Branch.childrenOf branches i ≠ []
  /-- It has their places, -/
  children_eq : ∀ i fork, at? branches i = some fork →
    fork.children = Branch.childrenOf branches i
  mem_children : ∀ i fork, at? branches i = some fork → ∀ child, child ∈ fork.children ↔
    ∃ branch, branches[child]? = some branch ∧ branch.parent = some i
  /-- in ascending order -/
  pairwise_children : ∀ i fork, at? branches i = some fork → fork.children.Pairwise (· < ·)
  /-- and all behind its own. -/
  lt_children : ∀ i fork, at? branches i = some fork → ∀ child ∈ fork.children, i < child
  /-- A branch with a parent is a child at one fork and at no other. -/
  existsUnique_fork : ∀ child branch, branches[child]? = some branch → branch.parent ≠ none →
    ∃! i, ∃ fork, at? branches i = some fork ∧ child ∈ fork.children
  mem_all : ∀ fork, fork ∈ all branches ↔ ∃ i, at? branches i = some fork
  /-- All forks together have as many children as there are branches with a parent. -/
  sum_children : ((all branches).map (·.children.length)).sum =
    branches.size - branches.toList.countP (·.parent.isNone)
  /-- The way from child to parent ends at a branch that has none. -/
  exists_root : ∀ i < branches.size, ∃ steps root branch,
    Branch.ancestorAt? branches steps i = some root ∧ branches[root]? = some branch ∧
      branch.parent = none

/-- The children of the forks and the branches without a parent are all branches. -/
theorem length_flatMap_children_all (h : Branch.AreGrown branches) :
    ((all branches).flatMap (·.children)).length + branches.toList.countP (·.parent.isNone) =
      branches.size := by
  have hsome : ((List.range branches.size).filter fun i =>
      (Branch.parentAt? branches i).isSome).length = branches.toList.countP (·.parent.isSome) := by
    have hplaces := congrArg (List.countP Option.isSome) (Branch.map_parentAt?_range branches)
    rw [List.countP_map, List.countP_map] at hplaces
    rw [← List.countP_eq_length_filter]
    exact hplaces
  have hnone : branches.toList.countP (·.parent.isNone) =
      branches.toList.countP fun branch => decide ¬branch.parent.isSome = true := by
    apply List.countP_congr
    intro branch _
    cases branch.parent <;> simp
  rw [flatMap_children_all, h.flatMap_childrenOf_perm.length_eq, hsome, hnone,
    ← List.length_eq_countP_add_countP, Array.length_toList]

/-- If every branch comes after its parent, the forks share out the branches that have one. -/
theorem shareOut_of_areGrown (h : Branch.AreGrown branches) : ShareOut branches where
  isSome_at? _ := isSome_at?_iff
  children_eq _ _ := children_at?
  mem_children i fork hfork child := by
    rw [children_at? hfork, Branch.mem_childrenOf, Option.bind_eq_some_iff]
  pairwise_children i fork hfork := by
    rw [children_at? hfork]
    exact Branch.pairwise_childrenOf branches i
  lt_children i fork hfork child hchild := by
    rw [children_at? hfork, Branch.mem_childrenOf] at hchild
    exact h child i hchild
  existsUnique_fork child branch hbranch hparent := by
    obtain ⟨i, hi⟩ := Option.ne_none_iff_exists'.1 hparent
    have hstep : Branch.parentAt? branches child = some i :=
      (Branch.parentAt?_of_getElem? hbranch).trans hi
    have hlt : i < branches.size :=
      Nat.lt_trans (h child i hstep) (Branch.lt_size_of_parentAt? hstep)
    have hchild : child ∈ Branch.childrenOf branches i := Branch.mem_childrenOf.2 hstep
    obtain ⟨fork, hfork⟩ :=
      Option.isSome_iff_exists.1 (isSome_at?_iff.2 ⟨hlt, List.ne_nil_of_mem hchild⟩)
    refine ⟨i, ⟨fork, hfork, ?_⟩, ?_⟩
    · rwa [children_at? hfork]
    · -- Another fork with this child would be at the tip of its parent as well.
      rintro j ⟨other, hother, hmem⟩
      rw [children_at? hother, Branch.mem_childrenOf] at hmem
      exact Option.some.inj (hmem.symm.trans hstep)
  mem_all _ := Fork.mem_all
  sum_children := by
    rw [← List.length_flatMap]
    exact Nat.eq_sub_of_add_eq (length_flatMap_children_all h)
  exists_root _ := h.exists_ancestorAt?

/-- In every drawn tree the forks share out the branches. -/
theorem shareOut_interpret [Scalar α] [Trig α] (angle : α) (w : Word) :
    ShareOut (Turtle.interpret angle w).branches := by
  apply shareOut_of_areGrown
  intro i j hparent
  obtain ⟨branch, hbranch, hfrom⟩ := Option.bind_eq_some_iff.1 hparent
  exact (Turtle.Walk.isRooted_depth angle (Turtle.instructions w)).parent_lt hbranch hfrom

def coppice : Word := "[F[+F][-F]]F[F]F".toList

/-- Two trees share four of their six branches out between two forks. -/
theorem coppice_shareOut :
    (all (Turtle.interpret (25.0 : Float32) coppice).branches).map
        (fun fork => (fork.parent, fork.children)) = [(0, [1, 2]), (3, [4, 5])] ∧
      (Turtle.interpret (25.0 : Float32) coppice).branches.size -
        (Turtle.interpret (25.0 : Float32) coppice).branches.toList.countP (·.parent.isNone) = 4 ∧
      (∃! i, ∃ fork, at? (Turtle.interpret (25.0 : Float32) coppice).branches i = some fork ∧
        5 ∈ fork.children) ∧
      ∃ steps root branch,
        Branch.ancestorAt? (Turtle.interpret (25.0 : Float32) coppice).branches steps 5 =
          some root ∧
        (Turtle.interpret (25.0 : Float32) coppice).branches[root]? = some branch ∧
        branch.parent = none := by
  have hforks : (all (Turtle.interpret (25.0 : Float32) coppice).branches).map
      (fun fork => (fork.parent, fork.children)) = [(0, [1, 2]), (3, [4, 5])] := by
    decide +kernel
  have hlast : (Turtle.interpret (25.0 : Float32) coppice).branches[5]?.map (·.parent) =
      some (some 3) := by
    decide +kernel
  obtain ⟨last, hbranch, hparent⟩ := Option.map_eq_some_iff.1 hlast
  have hshare := shareOut_interpret (25.0 : Float32) coppice
  have hsum := hshare.sum_children
  have hcounts := congrArg (fun forks => (forks.map (·.2.length)).sum) hforks
  rw [List.map_map] at hcounts
  refine ⟨hforks, hsum.symm.trans hcounts, hshare.existsUnique_fork 5 last hbranch ?_,
    hshare.exists_root 5 (Array.getElem?_eq_some_iff.1 hbranch).1⟩
  rw [hparent]
  exact Option.some_ne_none 3

end Fork

end Arbor
