import Arbor.Proofs.Blueprint.Growth

/-! The drawing of a hierarchy, from the strokes of its limbs and trunks up to the whole. -/

namespace Arbor

open TreePart Step Turtle

variable {α β : Type}

theorem not_isSprout_of_aims {step : Step β} (h : step.command.aims) : ¬step.isSprout := by
  cases step with
  | sprout => exact fun _ => Bool.false_ne_true h
  | _ => exact Bool.false_ne_true

variable [Scalar α] [Trig α] [Scalar β]

/-- Neither a step nor a tip moves the turtle without drawing. -/
theorem command_ne_move_of_perform {steps : List (Step β)} {list : List Instruction}
    (h : Perform steps list) : ∀ i ∈ list, i.command ≠ .move := by
  have htips : ∀ tip ∈ LSystem.organicTips, ∀ i ∈ instructions tip, i.command ≠ .move := by
    decide +kernel
  induction steps generalizing list with
  | nil =>
    obtain rfl : list = [] := h
    intro i hi
    exact absurd hi List.not_mem_nil
  | cons step steps ih =>
    obtain ⟨tip, htip, rest, rfl, hrest⟩ := h
    rw [List.forall_mem_append]
    refine ⟨?_, ih hrest⟩
    unfold instructionsWith
    split
    · exact htips tip htip
    · rw [List.forall_mem_singleton]
      cases step <;> exact Command.noConfusion

variable (angle : α)

/-- Steps that only aim are carried out by instructions that leave the turtle where it is. -/
theorem perform_aims {steps rest : List (Step β)} {list : List Instruction}
    (h : ∀ step ∈ steps, step.command.aims) (hp : Perform (steps ++ rest) list) :
    ∃ aims tail, list = aims ++ tail ∧ Perform rest tail ∧
      ∀ walk : Walk α, Still walk (walk.run angle aims) := by
  induction steps generalizing list with
  | nil => exact ⟨[], list, rfl, hp, Still.refl⟩
  | cons step steps ih =>
    have hstep : step.command.aims := h step List.mem_cons_self
    obtain ⟨list, rfl, hrest⟩ := perform_cons hp (not_isSprout_of_aims hstep)
    obtain ⟨aims, tail, rfl, htail, hstill⟩ :=
      ih (fun other hother => h other (List.mem_cons_of_mem _ hother)) hrest
    refine ⟨step.instruction :: aims, tail, rfl, htail, ?_⟩
    intro walk
    exact (still_step angle hstep walk).trans (hstill _)

def IsStroke (list : List Instruction) : Prop :=
  ∀ (number : TreePart → Nat) (part : TreePart) (walk : Walk α), number part = walk.branches.size →
    walk.current = part.parent?.map number → part.AtDepth walk.pose.depth →
    Growth number [part] [] walk (walk.run angle list) ∧
      StandsOn number part (walk.run angle list)

/-- Aiming and then drawing is a single stroke. -/
theorem perform_stroke {steps rest : List (Step β)} {length : β} {list : List Instruction}
    (h : ∀ step ∈ steps, step.command.aims) (hp : Perform (steps ++ .draw length :: rest) list) :
    ∃ stroke tail, list = stroke ++ tail ∧ Perform rest tail ∧ IsStroke angle stroke := by
  obtain ⟨aims, tail, rfl, htail, hstill⟩ := perform_aims angle h hp
  obtain ⟨tail, rfl, hrest⟩ := perform_cons htail Bool.false_ne_true
  refine ⟨aims ++ [(Step.draw length).instruction], tail, ?_, hrest, ?_⟩
  · rw [List.append_assoc, List.singleton_append]
  · intro number part walk hnumber hcurrent hdepth
    -- Aiming changes nothing that the draw depends on.
    have haims := hstill walk
    rw [Walk.run_append]
    rw [← haims.branches_eq] at hnumber
    rw [← haims.current_eq] at hcurrent
    rw [← haims.depth_eq] at hdepth
    obtain ⟨hgrowth, hstands⟩ := growth_draw part hnumber hcurrent hdepth _
    exact ⟨haims.growth.trans hgrowth, hstands⟩

theorem perform_branchSteps {radius : β} {shape : FileTree.Shape β} {rest : List (Step β)}
    {list : List Instruction} (hp : Perform (FileTree.branchSteps radius shape ++ rest) list) :
    ∃ stroke tail, list = stroke ++ tail ∧ Perform rest tail ∧ IsStroke angle stroke := by
  obtain ⟨aims, haims, hsteps⟩ : ∃ aims : List (Step β),
      (∀ step ∈ aims, step.command.aims) ∧
        FileTree.branchSteps radius shape = aims ++ [.draw shape.length] := by
    unfold FileTree.branchSteps
    split
    · exact ⟨[.yaw shape.yaw, .width radius], by simp [Step.command, Command.aims], rfl⟩
    · exact ⟨[.yaw shape.yaw, .pitch shape.pitch, .width radius],
        by simp [Step.command, Command.aims], rfl⟩
  rw [hsteps, List.append_assoc] at hp
  exact perform_stroke angle haims hp

theorem perform_trunkSteps {radius : β} {gen : Generator} {rest : List (Step β)}
    {list : List Instruction} (hp : Perform (FileTree.trunkSteps radius gen ++ rest) list) :
    ∃ stroke tail, list = stroke ++ tail ∧ Perform rest tail ∧ IsStroke angle stroke := by
  have haims : ∀ step ∈ [Step.width radius], step.command.aims := by
    simp [Step.command, Command.aims]
  exact perform_stroke angle haims hp

/-- Whether instructions draw an entry below the root, and all that is below it, from where its
parent's trunk ends. -/
def IsLimb (address : List Nat) (tree : FileTree) (list : List Instruction) : Prop :=
  ∃ parts, Draw address tree parts ∧ ∀ (number : TreePart → Nat) (walk : Walk α),
    Numbered number walk.branches.size parts →
    walk.current = some (number (.trunk address.dropLast)) →
    walk.pose.depth = address.length →
    Growth number parts (tree.leavesAt address) walk (walk.run angle list)

def AreLimbs (address : List Nat) (place : Nat) (children : List FileTree)
    (list : List Instruction) : Prop :=
  ∃ parts, DrawFrom address place children parts ∧ ∀ (number : TreePart → Nat) (walk : Walk α),
    Numbered number walk.branches.size parts →
    walk.current = some (number (.trunk address)) →
    walk.pose.depth = address.length →
    Growth number parts (FileTree.leavesFrom address place children) walk (walk.run angle list)

variable (base : UInt32) (riskAt : String → β)

/-- The step from the children's drawings to those of all children, each in its brackets. -/
theorem areLimbs_of_perform {address : List Nat} {radius turn : β} {place : Nat}
    {children : List FileTree} {list : List Instruction}
    (ih : ∀ child ∈ children, ∀ {address : List Nat} {radius : β} {list : List Instruction},
      address ≠ [] → Perform (FileTree.limb base riskAt radius child) list →
      IsLimb angle address child list)
    (hp : Perform (FileTree.limbs base riskAt radius turn place children) list) :
    AreLimbs angle address place children list := by
  induction children generalizing place list with
  | nil =>
    obtain rfl : list = [] := hp
    exact ⟨[], rfl, fun _ walk _ _ _ => (Still.refl walk).growth⟩
  | cons child rest ihrest =>
    -- An opening bracket, a turn, the limb, a closing bracket, and then the other children.
    rw [FileTree.limbs, List.cons_append, List.cons_append] at hp
    obtain ⟨list, rfl, hroll⟩ := perform_cons hp Bool.false_ne_true
    obtain ⟨list, rfl, hlimb⟩ := perform_cons hroll Bool.false_ne_true
    obtain ⟨inner, list, rfl, hinner, hpop⟩ := perform_append hlimb
    obtain ⟨list, rfl, hrest⟩ := perform_cons hpop Bool.false_ne_true
    obtain ⟨first, hfirst, hgrowth⟩ :=
      ih child List.mem_cons_self (List.concat_ne_nil place address) hinner
    obtain ⟨others, hothers, hgrowth'⟩ :=
      ihrest (fun other hother => ih other (List.mem_cons_of_mem _ hother)) hrest
    refine ⟨first ++ others, ⟨first, others, rfl, hfirst, hothers⟩, ?_⟩
    intro number walk hnumber hcurrent hdepth
    have hstill : Still walk.push (walk.push.step angle (Step.roll (turn * place)).instruction) :=
      still_step angle rfl walk.push
    -- Inside the brackets the limb stands on the trunk, one level deeper.
    have hin := hgrowth number _ (by rw [hstill.branches_eq]; exact hnumber.left)
      (by rw [hstill.current_eq, List.dropLast_concat]; exact hcurrent)
      (by rw [hstill.depth_eq, List.length_append]; exact congrArg (· + 1) hdepth)
    obtain ⟨hout, hpose, hback⟩ := (hstill.growth.trans hin).bracket
    -- Behind them everything is as before, with the limb drawn.
    have hafter := hgrowth' number _ (by rw [hout.size_eq]; exact hnumber.right)
      (hback.trans hcurrent) (by rw [hpose]; exact hdepth)
    rw [Walk.run_cons, Walk.run_cons, Walk.run_append, Walk.run_cons]
    exact hout.trans hafter

/-- A leaf is drawn by one stroke, its mark, and the twigs of its tip. -/
theorem isLimb_of_tip {name path : String} {kind : EntryKind} {metadata : Option Metadata}
    (address : List Nat) {radius : β} {stroke list : List Instruction}
    (hstroke : IsStroke angle stroke) (hp : Perform (FileTree.tipSteps radius path) list) :
    IsLimb angle address (.entry name path kind metadata []) (stroke ++ list) := by
  obtain ⟨list, rfl, hwidth⟩ := perform_cons hp Bool.false_ne_true
  obtain ⟨list, rfl, hsprout⟩ := perform_cons hwidth Bool.false_ne_true
  obtain ⟨tip, htip, rest, rfl, hrest⟩ := hsprout
  obtain rfl : rest = [] := hrest
  obtain ⟨count, hcount, htwigs⟩ := growth_tip angle htip
  refine ⟨[.limb address] ++ twigs address count,
    ⟨_, [], (List.append_nil _).symm, areOf_of_leaf address _ rfl hcount, rfl⟩, ?_⟩
  intro number walk hnumber hcurrent hdepth
  -- The limb, the marker at its tip, a change of width, the twigs.
  obtain ⟨hlimb, hstands⟩ := hstroke number (.limb address) walk hnumber.head hcurrent hdepth
  have hmark := growth_mark (.entry name path kind metadata []) hstands
    (hlimb.depth_eq.trans hdepth)
  have hstill := still_step angle (i := (Step.width (radius * 0.5)).instruction) rfl
    ((walk.run angle stroke).mark (EntryKind.file.payload path))
  have hbefore := (hlimb.trans hmark).trans hstill.growth
  have htip := htwigs number address _ (by rw [hbefore.size_eq]; exact hnumber.right)
    (hstill.current_eq.trans hstands.current_eq)
  have hall := hbefore.trans htip
  rw [List.append_nil, List.append_nil, List.nil_append, List.append_nil] at hall
  rw [FileTree.leavesAt_of_isEmpty, Walk.run_append, Walk.run_cons, Walk.run_cons, List.append_nil]
  exact hall

/-- An entry with children is drawn by the strokes of its limb and of its trunk, and then its
children. -/
theorem isLimb_of_limbs {name path : String} {kind : EntryKind} {metadata : Option Metadata}
    {children : List FileTree} (hchildren : children ≠ []) {address : List Nat}
    (hne : address ≠ []) {first second list : List Instruction}
    (hfirst : IsStroke angle first) (hsecond : IsStroke angle second)
    (hlimbs : AreLimbs angle address 0 children list) :
    IsLimb angle address (.entry name path kind metadata children)
      (first ++ (second ++ list)) := by
  obtain ⟨below, hdraw, hgrowth⟩ := hlimbs
  refine ⟨[.limb address] ++ [.trunk address] ++ below, ⟨_, below, rfl,
    areOf_of_children address (.entry name path kind metadata children) hchildren, hdraw⟩, ?_⟩
  intro number walk hnumber hcurrent hdepth
  -- The trunk stands on the limb, and the limbs of the children on the trunk.
  obtain ⟨hlimb, hstands⟩ :=
    hfirst number (.limb address) walk hnumber.left.head hcurrent hdepth
  have hparent : (TreePart.trunk address).parent? = some (.limb address) := by
    obtain ⟨place, rest, rfl⟩ := List.exists_cons_of_ne_nil hne
    rfl
  obtain ⟨htrunk, hstands'⟩ := hsecond number (.trunk address) (walk.run angle first)
    (hnumber.left.right.head.trans hlimb.size_eq.symm)
    (by rw [hparent]; exact hstands.current_eq) (hlimb.depth_eq.trans hdepth)
  have hboth := hlimb.trans htrunk
  have hbelow := hgrowth number ((walk.run angle first).run angle second)
    (by rw [hboth.size_eq]; exact hnumber.right) hstands'.current_eq (hboth.depth_eq.trans hdepth)
  rw [FileTree.leavesAt_of_ne_nil hchildren, Walk.run_append, Walk.run_append]
  exact hboth.trans hbelow

/-- The drawing of an entry below the root draws its parts and marks its leaves, whatever stands
around it. -/
theorem isLimb_of_perform {tree : FileTree} (hfiles : tree.filesAreLeaves) {address : List Nat}
    (hne : address ≠ []) {radius : β} {list : List Instruction}
    (hp : Perform (FileTree.limb base riskAt radius tree) list) :
    IsLimb angle address tree list := by
  induction tree using FileTree.induction_on_children generalizing address radius list with
  | entry name path kind metadata children ih =>
    obtain ⟨hkind, hbelow⟩ := FileTree.filesAreLeaves_entry_iff.1 hfiles
    rw [FileTree.limb] at hp
    obtain ⟨stroke, list, rfl, hend, hstroke⟩ := perform_branchSteps angle hp
    -- Behind its stroke a leaf has a tip, any other entry a trunk and its children.
    by_cases hchildren : children = []
    · subst hchildren
      rw [if_neg (by simp)] at hend
      exact isLimb_of_tip angle address hstroke hend
    · rw [if_pos ⟨hkind.resolve_right hchildren, by simpa using hchildren⟩] at hend
      obtain ⟨trunk, list, rfl, hend, htrunk⟩ := perform_trunkSteps angle hend
      have hlimbs : AreLimbs angle address 0 children list :=
        areLimbs_of_perform angle base riskAt
          (fun child hmem _ _ _ hne hp => ih child hmem (hbelow child hmem) hne hp) hend
      exact isLimb_of_limbs angle hchildren hne hstroke htrunk hlimbs

end Arbor
