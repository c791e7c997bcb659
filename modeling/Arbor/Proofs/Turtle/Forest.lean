import Arbor.Proofs.Turtle.Rooted
import Arbor.Scalar.Binary

/-! What every word draws is a forest. Each branch grows from an earlier one or from the start, and
takes over from there what no instruction has changed; its depth counts the brackets around it. -/

namespace Arbor.Turtle

def Instruction.levelAfter (level : Nat) (i : Instruction) : Nat :=
  match i.command with
  | .push => level + 1
  | .pop => level - 1
  | _ => level

def levelsFrom (command : Command) : Nat → List Instruction → List Nat
  | _, [] => []
  | level, i :: list =>
    if i.command = command then level :: levelsFrom command (i.levelAfter level) list
    else levelsFrom command (i.levelAfter level) list

/-- How many brackets are open at each instruction with the given command. -/
def levelsOf (command : Command) (list : List Instruction) : List Nat :=
  levelsFrom command 0 list

variable {α : Type}

structure Walk.IsAtLevel (walk : Walk α) (level : Nat) : Prop where
  depth_eq : walk.pose.depth = level
  length_eq : walk.saved.length = level
  saved : ∀ k state, walk.saved[k]? = some state → state.1.depth + (k + 1) = level

namespace Walk.IsAtLevel

variable {walk : Walk α} {level : Nat}

theorem push (h : walk.IsAtLevel level) : walk.push.IsAtLevel (level + 1) := by
  have hdepth : walk.push.pose.depth = walk.pose.depth + 1 := rfl
  have hsaved : walk.push.saved = (walk.pose, walk.current) :: walk.saved := rfl
  refine ⟨by rw [hdepth, h.depth_eq], by rw [hsaved, List.length_cons, h.length_eq], ?_⟩
  intro k state hstate
  rw [hsaved] at hstate
  cases k with
  | zero =>
    obtain rfl := Option.some.inj hstate
    rw [h.depth_eq]
  | succ k =>
    have hlevel := h.saved k state hstate
    omega

/-- A bracket that closes none leaves the depth at zero, as it finds it. -/
theorem pop (h : walk.IsAtLevel level) : walk.pop.IsAtLevel (level - 1) := by
  have hlength := h.length_eq
  cases hsaved : walk.saved with
  | nil =>
    -- No bracket is open, so none closes.
    rw [hsaved, List.length_nil] at hlength
    subst hlength
    rwa [Walk.pop_of_saved_nil hsaved]
  | cons state saved =>
    rw [hsaved, List.length_cons] at hlength
    have htop : state.1.depth + (0 + 1) = level := h.saved 0 state (by rw [hsaved]; rfl)
    rw [Walk.pop_of_saved_cons hsaved]
    refine ⟨Nat.eq_sub_of_add_eq htop, Nat.eq_sub_of_add_eq hlength, ?_⟩
    intro k other hother
    have hdeep : other.1.depth + (k + 1 + 1) = level :=
      h.saved (k + 1) other (by rw [hsaved]; exact hother)
    omega

variable [Scalar α]

theorem start : (Walk.start : Walk α).IsAtLevel 0 :=
  ⟨rfl, rfl, nofun⟩

variable [Trig α]

/-- One instruction keeps the depth the number of open brackets. -/
theorem step (h : walk.IsAtLevel level) (angle : α) (i : Instruction) :
    (walk.step angle i).IsAtLevel (i.levelAfter level) := by
  obtain ⟨command, payload⟩ := i
  cases command with
  | push => exact h.push
  | pop => exact h.pop
  | _ => exact ⟨h.depth_eq, h.length_eq, h.saved⟩

end Walk.IsAtLevel

variable [Scalar α] [Trig α] {walk : Walk α} {level : Nat}

/-- A branch is drawn at the level of its instruction. -/
theorem depth_branches_step (h : walk.IsAtLevel level) (angle : α) (i : Instruction) :
    (walk.step angle i).branches.toList.map (·.depth) =
      walk.branches.toList.map (·.depth) ++ if i.command = .draw then [level] else [] := by
  by_cases hi : i.command = .draw
  · obtain ⟨command, payload⟩ := i
    obtain rfl : command = .draw := hi
    rw [if_pos rfl, Walk.step, Walk.draw, Array.toList_push, List.map_append, ← h.depth_eq]
    rfl
  · rw [if_neg hi, List.append_nil, walk.branches_step_of_ne angle hi]

/-- A marker is placed at the level of its instruction. -/
theorem depth_markers_step (h : walk.IsAtLevel level) (angle : α) (i : Instruction) :
    (walk.step angle i).markers.toList.map (·.depth) =
      walk.markers.toList.map (·.depth) ++ if i.command = .mark then [level] else [] := by
  by_cases hi : i.command = .mark
  · obtain ⟨command, payload⟩ := i
    obtain rfl : command = .mark := hi
    rw [if_pos rfl, Walk.step, Walk.mark, Array.toList_push, List.map_append, ← h.depth_eq]
    rfl
  · rw [if_neg hi, List.append_nil, walk.markers_step_of_ne angle hi]

/-- The depths of what a walk draws or places are the levels of the instructions that do so. -/
theorem depths_run (depths : Walk α → List Nat) (command : Command) (angle : α)
    (hstep : ∀ {walk : Walk α} {level : Nat}, walk.IsAtLevel level → ∀ i : Instruction,
      depths (walk.step angle i) = depths walk ++ if i.command = command then [level] else [])
    (h : walk.IsAtLevel level) (list : List Instruction) :
    depths (walk.run angle list) = depths walk ++ levelsFrom command level list := by
  induction list generalizing walk level with
  | nil => exact (List.append_nil _).symm
  | cons i list ih =>
    rw [Walk.run_cons, ih (h.step angle i), hstep h i, List.append_assoc, levelsFrom]
    split <;> rfl

/-- Every word draws a forest. Each branch has no parent or an earlier one that lies no deeper. The
depths of branches and markers are the numbers of brackets open where they are drawn and placed. If
the turtle never moves without drawing, a branch begins exactly where its parent ends, or at the
origin; if it never sets its width, a branch begins as thick as its parent ends, or as the turtle
started. -/
theorem interpret_isForest (angle : α) (w : Word) :
    (∀ (i j : Nat) (branch : Branch α), (interpret angle w).branches[i]? = some branch →
      branch.parent = some j → j < i ∧ ∃ parent, (interpret angle w).branches[j]? = some parent ∧
        parent.depth ≤ branch.depth) ∧
    (interpret angle w).branches.toList.map (·.depth) = levelsOf .draw (instructions w) ∧
    (interpret angle w).markers.toList.map (·.depth) = levelsOf .mark (instructions w) ∧
    ((∀ i ∈ instructions w, i.command ≠ .move) →
      (interpret angle w).Continues Branch.base Branch.tip .zero) ∧
    ((∀ i ∈ instructions w, i.command ≠ .width) →
      (interpret angle w).Continues Branch.baseRadius Branch.tipRadius initialRadius) := by
  have hdepth := Walk.isRooted_depth angle (instructions w)
  have hstart : (Walk.start : Walk α).IsAtLevel 0 := Walk.IsAtLevel.start
  refine ⟨?_, ?_, ?_, ?_, ?_⟩
  · intro i j branch hbranch hparent
    obtain ⟨hbefore, before, hfoot, hle⟩ := hdepth.branches i branch hbranch
    rw [hparent] at hfoot
    obtain ⟨parent, hplace, rfl⟩ := Option.map_eq_some_iff.1 hfoot
    exact ⟨hbefore j hparent, parent, hplace, hle⟩
  · exact depths_run (fun walk => walk.branches.toList.map (·.depth)) .draw angle
      (fun h i => depth_branches_step h angle i) hstart (instructions w)
  · exact depths_run (fun walk => walk.markers.toList.map (·.depth)) .mark angle
      (fun h i => depth_markers_step h angle i) hstart (instructions w)
  · intro hmoves
    exact (Walk.IsJoined.start.run angle hmoves).continues
  · intro hwidths
    exact (Walk.Carries.start.run angle fun i hi => respects_radius (hwidths i hi)).continues

def unbalanced : Word := [']', 'F', '[', '[', '+', '(', '9', ')', 'G', '@', ']', 'F']

/-- Brackets that close without being open, and brackets that stay open. -/
theorem unbalanced_isForest :
    (∀ i ∈ instructions unbalanced, i.command ≠ .move) ∧
      (∀ i ∈ instructions unbalanced, i.command ≠ .width) ∧
      (interpret (25.0 : Float32) unbalanced).branches.toList.map (·.depth) = [0, 2, 1] ∧
      (interpret (25.0 : Float32) unbalanced).markers.toList.map (·.depth) = [2] ∧
      (interpret (25.0 : Float32) unbalanced).Continues Branch.base Branch.tip .zero ∧
      (interpret (25.0 : Float32) unbalanced).Continues Branch.baseRadius Branch.tipRadius
        initialRadius := by
  have hmoves : ∀ i ∈ instructions unbalanced, i.command ≠ .move := by decide +kernel
  have hwidths : ∀ i ∈ instructions unbalanced, i.command ≠ .width := by decide +kernel
  have hdraws : levelsOf .draw (instructions unbalanced) = [0, 2, 1] := by decide +kernel
  have hmarks : levelsOf .mark (instructions unbalanced) = [2] := by decide +kernel
  obtain ⟨-, hbranches, hmarkers, hjoined, hradii⟩ :=
    interpret_isForest (25.0 : Float32) unbalanced
  exact ⟨hmoves, hwidths, hbranches.trans hdraws, hmarkers.trans hmarks, hjoined hmoves,
    hradii hwidths⟩

end Arbor.Turtle
