import Arbor.FileTree.System
import Arbor.Proofs.Blueprint.Siblings
import Arbor.Proofs.FileTree.Descendants

/-! What the records of risk do to a drawing. The yaw of each entry's branch reads the risk of that
entry, and nothing else reads any: neither a draw nor what stands behind the yaw, the drawings of
the entries below included. -/

namespace Arbor

/-- Only the first record of a path counts. -/
theorem Hotspot.riskAt_congr {α : Type} [Scalar α] {hotspots hotspots' : List (Hotspot α)}
    {path : String} (h : hotspots.find? (·.path = path) = hotspots'.find? (·.path = path)) :
    riskAt hotspots path = riskAt hotspots' path := by
  rw [riskAt, riskAt, h]

/-- A record says nothing of other paths, nor of its own behind an earlier one. -/
theorem Hotspot.riskAt_append_cons {α : Type} [Scalar α] {first : List (Hotspot α)}
    {record : Hotspot α} {path : String}
    (h : path ≠ record.path ∨ ∃ earlier ∈ first, earlier.path = record.path)
    (last : List (Hotspot α)) :
    riskAt (first ++ record :: last) path = riskAt (first ++ last) path := by
  apply riskAt_congr
  rw [List.find?_append, List.find?_append]
  by_cases hpath : path = record.path
  · obtain ⟨earlier, hmem, hsame⟩ := h.resolve_left fun hne => hne hpath
    have hfound : (first.find? (·.path = path)).isSome := by
      rw [List.find?_isSome]
      exact ⟨earlier, hmem, decide_eq_true (hsame.trans hpath.symm)⟩
    obtain ⟨found, hfound⟩ := Option.isSome_iff_exists.1 hfound
    rw [hfound, Option.some_or, Option.some_or]
  · rw [List.find?_cons_of_neg]
    simpa using Ne.symm hpath

namespace FileTree

variable {α : Type} [Scalar α]

mutual

def drawnBeyond : FileTree → List FileTree
  | entry _ _ .directory _ children => drawnOf children
  | entry _ _ .file _ _ => []

def drawnOf : List FileTree → List FileTree
  | [] => []
  | child :: rest => child :: drawnBeyond child ++ drawnOf rest

end

/-- The entries of a hierarchy that have a branch, in display order: all below the root but those
that stand below a file there. -/
def drawn (tree : FileTree) : List FileTree :=
  drawnOf tree.children

theorem drawnOf_subset_of {children : List FileTree}
    (h : ∀ child ∈ children, child.drawnBeyond ⊆ child.descendants) :
    drawnOf children ⊆ descendantsOf children := by
  induction children with
  | nil => exact List.Subset.refl []
  | cons child rest ih =>
    rw [List.forall_mem_cons] at h
    rw [drawnOf, descendantsOf_cons, List.cons_append, List.cons_append]
    apply List.cons_subset_cons
    rw [List.append_subset]
    exact ⟨List.subset_append_of_subset_left _ h.1, List.subset_append_of_subset_right _ (ih h.2)⟩

theorem drawnBeyond_subset (tree : FileTree) : tree.drawnBeyond ⊆ tree.descendants := by
  induction tree using induction_on_children with
  | entry name path kind metadata children ih =>
    cases kind with
    | directory => exact drawnOf_subset_of ih
    | file => exact List.nil_subset _

/-- What has a branch is an entry below the root. -/
theorem drawn_subset (tree : FileTree) : tree.drawn ⊆ tree.descendants := by
  obtain ⟨name, path, kind, metadata, children⟩ := tree
  exact drawnOf_subset_of fun child _ => child.drawnBeyond_subset

def yawAt (base : UInt32) (risk : α) (tree : FileTree) : α :=
  (shape tree.metadata risk (Generator.ofPath tree.path base)).1.yaw

end FileTree

namespace Step

variable {α : Type} [Scalar α]

def isYaw : Step α → Bool
  | yaw _ => true
  | _ => false

/-- Whether two drawings are the same step for step but for the yaws, of which there is one for each
of some entries in order. It is that of the entry's branch under the one account of risks and under
the other. -/
inductive AlikeButYaws (base : UInt32) (risk risk' : String → α) :
    List FileTree → List (Step α) → List (Step α) → Prop
  | nil : AlikeButYaws base risk risk' [] [] []
  | same {entries : List FileTree} {steps steps' : List (Step α)} {step : Step α}
    (h : ¬step.isYaw) (hrest : AlikeButYaws base risk risk' entries steps steps') :
    AlikeButYaws base risk risk' entries (step :: steps) (step :: steps')
  | yaw {entries : List FileTree} {steps steps' : List (Step α)} (entry : FileTree)
    (hrest : AlikeButYaws base risk risk' entries steps steps') :
    AlikeButYaws base risk risk' (entry :: entries)
      (.yaw (entry.yawAt base (risk entry.path)) :: steps)
      (.yaw (entry.yawAt base (risk' entry.path)) :: steps')

namespace AlikeButYaws

variable {base : UInt32} {risk risk' : String → α} {entries entries' : List FileTree}
  {steps steps' rest rest' : List (Step α)}

/-- Drawings one after the other differ in the yaws of the entries of both. -/
theorem append (h : AlikeButYaws base risk risk' entries steps steps')
    (hrest : AlikeButYaws base risk risk' entries' rest rest') :
    AlikeButYaws base risk risk' (entries ++ entries') (steps ++ rest) (steps' ++ rest') := by
  induction h with
  | nil => exact hrest
  | same hstep _ ih => exact same hstep ih
  | yaw entry _ ih => exact yaw entry ih

/-- The same steps in front, without a yaw, make no difference. -/
theorem prepend (h : AlikeButYaws base risk risk' entries rest rest')
    (hsteps : ∀ step ∈ steps, ¬step.isYaw) :
    AlikeButYaws base risk risk' entries (steps ++ rest) (steps ++ rest') := by
  induction steps with
  | nil => exact h
  | cons step steps ih =>
    rw [List.forall_mem_cons] at hsteps
    exact same hsteps.1 (ih hsteps.2)

theorem of_not_isYaw (hsteps : ∀ step ∈ steps, ¬step.isYaw) :
    AlikeButYaws base risk risk' [] steps steps := by
  have hnone : AlikeButYaws base risk risk' [] [] [] := nil
  have h := hnone.prepend hsteps
  rwa [List.append_nil] at h

/-- Drawings of entries whose risks are the same do not differ at all. -/
theorem eq (h : AlikeButYaws base risk risk' entries steps steps')
    (hrisk : ∀ entry ∈ entries, risk entry.path = risk' entry.path) : steps = steps' := by
  induction h with
  | nil => rfl
  | same _ _ ih => rw [ih hrisk]
  | yaw entry _ ih =>
    rw [List.forall_mem_cons] at hrisk
    rw [hrisk.1, ih hrisk.2]

end AlikeButYaws

end Step

namespace FileTree

open Step

variable {α : Type} [Scalar α]

theorem not_isYaw_of_mem_trunkSteps {radius : α} {gen : Generator} :
    ∀ step ∈ trunkSteps radius gen, ¬step.isYaw := by
  simp [trunkSteps, isYaw]

theorem not_isYaw_of_mem_tipSteps {radius : α} {path : String} :
    ∀ step ∈ tipSteps radius path, ¬step.isYaw := by
  simp [tipSteps, isYaw]

variable (base : UInt32) (risk risk' : String → α)

/-- Of the shape of a branch only the yaw reads the risk. -/
theorem alikeButYaws_branchSteps_append {entries : List FileTree} {rest rest' : List (Step α)}
    (h : AlikeButYaws base risk risk' entries rest rest') (radius : α) (tree : FileTree) :
    AlikeButYaws base risk risk' (tree :: entries)
      (branchSteps radius
        (shape tree.metadata (risk tree.path) (Generator.ofPath tree.path base)).1 ++ rest)
      (branchSteps radius
        (shape tree.metadata (risk' tree.path) (Generator.ofPath tree.path base)).1 ++ rest') := by
  have hbehind : ∀ step ∈ (branchSteps radius
      (shape tree.metadata (risk tree.path) (Generator.ofPath tree.path base)).1).tail,
      ¬step.isYaw := by
    unfold branchSteps
    split <;> simp [isYaw]
  exact AlikeButYaws.yaw tree (h.prepend hbehind)

/-- The step from the drawings of the children to those of all of them behind their rolls. -/
theorem alikeButYaws_limbs {radius turn : α} {place : Nat} {children : List FileTree}
    (h : ∀ child ∈ children, AlikeButYaws base risk risk' (child :: child.drawnBeyond)
      (limb base risk radius child) (limb base risk' radius child)) :
    AlikeButYaws base risk risk' (drawnOf children) (limbs base risk radius turn place children)
      (limbs base risk' radius turn place children) := by
  induction children generalizing place with
  | nil => exact AlikeButYaws.nil
  | cons child rest ih =>
    rw [List.forall_mem_cons] at h
    rw [drawnOf, limbs, limbs]
    have hclosed : AlikeButYaws base risk risk' (drawnOf rest)
        (.pop :: limbs base risk radius turn (place + 1) rest)
        (.pop :: limbs base risk' radius turn (place + 1) rest) :=
      AlikeButYaws.same Bool.false_ne_true (ih h.2)
    exact AlikeButYaws.same Bool.false_ne_true (AlikeButYaws.same Bool.false_ne_true (h.1.append hclosed))

/-- The drawing of an entry, with the draws of its generator written out. -/
theorem limb_entry (name path : String) (kind : EntryKind) (metadata : Option Metadata)
    (children : List FileTree) (radius : α) :
    limb base risk radius (entry name path kind metadata children) =
      branchSteps (branchRadius radius kind)
          (shape metadata (risk path) (Generator.ofPath path base)).1 ++
        (if kind = .directory ∧ ¬children.isEmpty then
          trunkSteps (branchRadius radius kind)
              (shape metadata (risk path) (Generator.ofPath path base)).2 ++
            limbs base risk (branchRadius radius kind) (360.0 / (children.length : α)) 0 children
        else tipSteps (branchRadius radius kind) path) := by
  rw [limb]

/-- Two accounts of the risks change nothing in the drawing of an entry but the yaws in it. -/
theorem alikeButYaws_limb (radius : α) (tree : FileTree) :
    AlikeButYaws base risk risk' (tree :: tree.drawnBeyond) (limb base risk radius tree)
      (limb base risk' radius tree) := by
  induction tree using induction_on_children generalizing radius with
  | entry name path kind metadata children ih =>
    rw [limb_entry, limb_entry]
    apply alikeButYaws_branchSteps_append base risk risk' _ _
      (entry name path kind metadata children)
    cases kind with
    | file => exact AlikeButYaws.of_not_isYaw not_isYaw_of_mem_tipSteps
    | directory =>
      cases children with
      | nil =>
        -- A directory without children is drawn as a file is.
        exact AlikeButYaws.of_not_isYaw not_isYaw_of_mem_tipSteps
      | cons first others =>
        rw [if_pos ⟨rfl, Bool.false_ne_true⟩, if_pos ⟨rfl, Bool.false_ne_true⟩]
        refine (alikeButYaws_limbs base risk risk' ?_).prepend not_isYaw_of_mem_trunkSteps
        exact fun child hchild => ih child hchild _

/-- Two accounts of the risks change nothing in a drawing but yaws, and none of the root's, which
has none. -/
theorem alikeButYaws_blueprint (tree : FileTree) (hotspots hotspots' : List (Hotspot α)) :
    AlikeButYaws base (Hotspot.riskAt hotspots) (Hotspot.riskAt hotspots') tree.drawn
      (tree.blueprint base hotspots) (tree.blueprint base hotspots') := by
  obtain ⟨name, path, kind, metadata, children⟩ := tree
  rw [blueprint, blueprint]
  cases children with
  | nil => exact AlikeButYaws.same Bool.false_ne_true AlikeButYaws.nil
  | cons first others =>
    have hchildren : ¬(first :: others).isEmpty := Bool.false_ne_true
    rw [if_neg hchildren, if_neg hchildren]
    refine (alikeButYaws_limbs base _ _ ?_).prepend not_isYaw_of_mem_trunkSteps
    exact fun child _ => alikeButYaws_limb base _ _ rootRadius child

end FileTree

namespace LSystem

open FileTree Step

variable {α β : Type} [Scalar α] [Scalar β]

/-- Where all risks below the root are the same, so is the system. -/
theorem ofFileTree_congr {tree : FileTree} {hotspots hotspots' : List (Hotspot β)}
    (base : UInt32) (h : ∀ entry ∈ tree.descendants,
      Hotspot.riskAt hotspots entry.path = Hotspot.riskAt hotspots' entry.path) :
    (ofFileTree tree hotspots base : LSystem α) = ofFileTree tree hotspots' base := by
  have halike := alikeButYaws_blueprint base tree hotspots hotspots'
  rw [ofFileTree, ofFileTree, halike.eq fun entry hentry => h entry (tree.drawn_subset hentry)]

variable (α) in
/-- Two accounts of the risks in a hierarchy give systems that differ in the word alone, and in the
word at most in the yaws of the entries that have not the same risk in both. So nothing is changed
by a record for the root or for an unknown path, by one behind another of its path, or by any other
order in which each path has the same first record. -/
theorem ofFileTree_alikeButYaws (tree : FileTree) (base : UInt32)
    (hotspots hotspots' : List (Hotspot β)) :
    AlikeButYaws base (Hotspot.riskAt hotspots) (Hotspot.riskAt hotspots') tree.drawn
      (tree.blueprint base hotspots) (tree.blueprint base hotspots') ∧
    (ofFileTree tree hotspots' base : LSystem α) =
      { (ofFileTree tree hotspots base : LSystem α) with
        start := Step.words (tree.blueprint base hotspots') } ∧
    ((∀ entry ∈ tree.descendants,
        Hotspot.riskAt hotspots entry.path = Hotspot.riskAt hotspots' entry.path) →
      (ofFileTree tree hotspots base : LSystem α) = ofFileTree tree hotspots' base) ∧
    (∀ (first last : List (Hotspot β)) (record : Hotspot β),
      ((∀ entry ∈ tree.descendants, entry.path ≠ record.path) ∨
        ∃ earlier ∈ first, earlier.path = record.path) →
      (ofFileTree tree (first ++ record :: last) base : LSystem α) =
        ofFileTree tree (first ++ last) base) ∧
    ((∀ path, hotspots.find? (·.path = path) = hotspots'.find? (·.path = path)) →
      (ofFileTree tree hotspots base : LSystem α) = ofFileTree tree hotspots' base) := by
  refine ⟨alikeButYaws_blueprint base tree hotspots hotspots', rfl, ofFileTree_congr base, ?_, ?_⟩
  · intro first last record hrecord
    apply ofFileTree_congr
    intro entry hentry
    exact Hotspot.riskAt_append_cons (hrecord.imp_left fun hnone => hnone entry hentry) last
  · intro hfirst
    apply ofFileTree_congr
    intro entry _
    exact Hotspot.riskAt_congr (hfirst entry.path)

/-! Two records for entries of a hierarchy, and one for its root. -/

def hotLeaf : Hotspot Float := ⟨"r/l/c", 4.0, 2.0, 0.5⟩

def hotFile : Hotspot Float := ⟨"r/a", 1.0, 3.0, 2.0⟩

def hotRoot : Hotspot Float := ⟨"r", 9.0, 9.0, 9.0⟩

/-- The same records in another order and with a second one for a path, then one more for the root.
-/
theorem copse_alikeButYaws :
    (∀ path, [hotLeaf, hotFile].find? (·.path = path) =
      [hotFile, hotLeaf, { hotLeaf with risk := 7.0 }].find? (·.path = path)) ∧
    (∀ entry ∈ copse.descendants, Hotspot.riskAt [hotLeaf, hotFile] entry.path =
      Hotspot.riskAt [hotFile, hotLeaf, { hotLeaf with risk := 7.0 }] entry.path) ∧
    (∀ entry ∈ copse.descendants, entry.path ≠ hotRoot.path) ∧
    (ofFileTree copse [hotLeaf, hotFile] 42 : LSystem Float32) =
      ofFileTree copse [hotFile, hotLeaf, { hotLeaf with risk := 7.0 }] 42 ∧
    (ofFileTree copse ([hotLeaf] ++ hotRoot :: [hotFile]) 42 : LSystem Float32) =
      ofFileTree copse ([hotLeaf] ++ [hotFile]) 42 := by
  have hfirst : ∀ path, [hotLeaf, hotFile].find? (·.path = path) =
      [hotFile, hotLeaf, { hotLeaf with risk := 7.0 }].find? (·.path = path) := by
    intro path
    by_cases hleaf : hotLeaf.path = path
    · subst hleaf
      rfl
    · by_cases hfile : hotFile.path = path
      · subst hfile
        rfl
      · simp [hleaf, hfile]
  have hrisk : ∀ entry ∈ copse.descendants, Hotspot.riskAt [hotLeaf, hotFile] entry.path =
      Hotspot.riskAt [hotFile, hotLeaf, { hotLeaf with risk := 7.0 }] entry.path :=
    fun entry _ => Hotspot.riskAt_congr (hfirst entry.path)
  have hroot : ∀ entry ∈ copse.descendants, entry.path ≠ hotRoot.path := by
    decide +kernel
  obtain ⟨-, -, hsame, hrecord, horder⟩ :=
    ofFileTree_alikeButYaws Float32 copse 42 [hotLeaf, hotFile]
      [hotFile, hotLeaf, { hotLeaf with risk := 7.0 }]
  exact ⟨hfirst, hrisk, hroot, hsame hrisk, hrecord [hotLeaf] [hotFile] hotRoot (Or.inl hroot)⟩

end LSystem

end Arbor
