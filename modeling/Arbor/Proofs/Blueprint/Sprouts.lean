import Arbor.Proofs.Blueprint.Steps
import Arbor.Proofs.FileTree.Descendants

/-! Where the drawing of a hierarchy has sprouts: one at the end of the bracket of each leaf below
the root, and nowhere else. A pass over the word puts a tip in the place of each and changes no
other character; after it there is nothing left to replace. -/

namespace Arbor

namespace Step

variable {α : Type}

/-- Whether steps have a sprout for each of the leaves in order, at the end of its bracket and
behind its marker and its width, and no other sprout. -/
inductive SproutsFor : List FileTree → List (Step α) → Prop
  | nil : SproutsFor [] []
  | step {leaves : List FileTree} {steps : List (Step α)} {step : Step α} (h : ¬step.isSprout)
    (hrest : SproutsFor leaves steps) : SproutsFor leaves (step :: steps)
  | leaf {leaves : List FileTree} {steps : List (Step α)} (leaf : FileTree) (radius : α)
    (hrest : SproutsFor leaves steps) :
    SproutsFor (leaf :: leaves)
      (.mark .file leaf.path :: .width radius :: .sprout :: .pop :: steps)

namespace SproutsFor

variable {leaves leaves' : List FileTree} {steps steps' : List (Step α)}

/-- The sprouts of steps one after the other are those of the first, then those of the second. -/
theorem append (h : SproutsFor leaves steps) (h' : SproutsFor leaves' steps') :
    SproutsFor (leaves ++ leaves') (steps ++ steps') := by
  induction h with
  | nil => exact h'
  | step hstep _ ih => exact step hstep ih
  | leaf entry radius _ ih => exact leaf entry radius ih

theorem prepend (h : SproutsFor leaves steps) (hsteps : ∀ step ∈ steps', ¬step.isSprout) :
    SproutsFor leaves (steps' ++ steps) := by
  induction steps' with
  | nil => exact h
  | cons first rest ih =>
    rw [List.forall_mem_cons] at hsteps
    exact step hsteps.1 (ih hsteps.2)

end SproutsFor

end Step

namespace FileTree

open Step

variable {α : Type} [Scalar α]

theorem not_isSprout_of_mem_branchSteps {radius : α} {shape : Shape α} :
    ∀ step ∈ branchSteps radius shape, ¬step.isSprout := by
  unfold branchSteps
  split <;> simp [isSprout]

theorem not_isSprout_of_mem_trunkSteps {radius : α} {gen : Generator} :
    ∀ step ∈ trunkSteps radius gen, ¬step.isSprout := by
  simp [trunkSteps, isSprout]

variable (base : UInt32) (riskAt : String → α)

/-- The step from the sprouts of the children to those of all of them. -/
theorem sproutsFor_limbs {radius turn : α} {place : Nat} {children : List FileTree}
    (ih : ∀ child ∈ children, ∀ {radius : α},
      SproutsFor ((child :: child.descendants).filter isLeaf)
        (limb base riskAt radius child ++ [.pop])) :
    SproutsFor ((descendantsOf children).filter isLeaf)
      (limbs base riskAt radius turn place children) := by
  induction children generalizing place with
  | nil => exact SproutsFor.nil
  | cons child rest ihrest =>
    rw [List.forall_mem_cons] at ih
    have hchild : SproutsFor ((child :: child.descendants).filter isLeaf)
        (limb base riskAt radius child ++ [.pop]) := ih.1
    have hrest : SproutsFor ((descendantsOf rest).filter isLeaf)
        (limbs base riskAt radius turn (place + 1) rest) := ihrest ih.2
    have hboth := hchild.append hrest
    rw [← List.filter_append, List.append_assoc, List.singleton_append] at hboth
    have hopen : ∀ step ∈ [Step.push, Step.roll (turn * (place : α))], ¬step.isSprout := by
      simp [isSprout]
    rw [descendantsOf_cons, limbs]
    exact hboth.prepend hopen

/-- An entry below the root ends its bracket with a sprout if it is a leaf. -/
theorem sproutsFor_limb {tree : FileTree} (hfiles : tree.filesAreLeaves) {radius : α} :
    SproutsFor ((tree :: tree.descendants).filter isLeaf)
      (limb base riskAt radius tree ++ [.pop]) := by
  induction tree using induction_on_children generalizing radius with
  | entry name path kind metadata children ih =>
    obtain ⟨hkind, hbelow⟩ := filesAreLeaves_entry_iff.1 hfiles
    rw [limb, List.append_assoc]
    refine SproutsFor.prepend ?_ not_isSprout_of_mem_branchSteps
    by_cases hchildren : children = []
    · subst hchildren
      rw [if_neg (by simp)]
      exact SproutsFor.leaf (entry name path kind metadata []) _ SproutsFor.nil
    · have hlimbs : SproutsFor ((descendantsOf children).filter isLeaf)
          (limbs base riskAt (branchRadius radius kind) (360.0 / (children.length : α)) 0
            children) :=
        sproutsFor_limbs base riskAt fun child hmem _ => ih child hmem (hbelow child hmem)
      have hleaf : ¬(entry name path kind metadata children).isLeaf := by
        simpa [isLeaf, FileTree.children] using hchildren
      rw [if_pos ⟨hkind.resolve_right hchildren, by simpa using hchildren⟩, List.append_assoc,
        List.filter_cons_of_neg hleaf, descendants_entry]
      refine SproutsFor.prepend ?_ not_isSprout_of_mem_trunkSteps
      have hpop : SproutsFor [] ([.pop] : List (Step α)) :=
        SproutsFor.nil.step Bool.false_ne_true
      have hall := hlimbs.append hpop
      rwa [List.append_nil] at hall

/-- Where files are leaves, a drawing has one sprout for each leaf below the root. -/
theorem sproutsFor_blueprint {tree : FileTree} (hfiles : tree.filesAreLeaves)
    (hotspots : List (Hotspot α)) :
    SproutsFor (tree.descendants.filter isLeaf) (tree.blueprint base hotspots) := by
  obtain ⟨name, path, kind, metadata, children⟩ := tree
  obtain ⟨-, hbelow⟩ := filesAreLeaves_entry_iff.1 hfiles
  rw [blueprint, descendants_entry]
  split
  case isTrue h =>
    obtain rfl := List.isEmpty_iff.1 h
    exact SproutsFor.nil.step Bool.false_ne_true
  case isFalse =>
    refine SproutsFor.prepend ?_ not_isSprout_of_mem_trunkSteps
    exact sproutsFor_limbs base _ fun child hmem _ => sproutsFor_limb base _ (hbelow child hmem)

end FileTree

end Arbor
