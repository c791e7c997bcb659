import Mathlib.Data.List.Forall2
import Arbor.Scalar.Binary
import Arbor.Turtle.Walk

/-! Words that differ in lengths and angles alone. These move the turtle about and turn it, but what
it draws from where, how thick and under how many brackets never depends on where it is, so both
words draw the same branches and markers up to points and directions. -/

namespace Arbor

variable {α : Type}

structure Branch.Resembles (branch other : Branch α) : Prop where
  parent : other.parent = branch.parent
  depth : other.depth = branch.depth
  baseRadius : other.baseRadius = branch.baseRadius
  tipRadius : other.tipRadius = branch.tipRadius

structure Marker.Resembles (marker other : Marker α) : Prop where
  path : other.path = marker.path
  kind : other.kind = marker.kind
  depth : other.depth = marker.depth
  radius : other.radius = marker.radius

structure Skeleton.Resembles (skeleton other : Skeleton α) : Prop where
  branches : List.Forall₂ Branch.Resembles skeleton.branches.toList other.branches.toList
  markers : List.Forall₂ Marker.Resembles skeleton.markers.toList other.markers.toList

namespace Turtle

open Word

/-! ### Words -/

def Command.isMeasured : Command → Bool
  | draw => true
  | move => true
  | turn _ _ => true
  | _ => false

/-- Words that differ at most in the payloads that the turtle takes as lengths and angles. A symbol
without a payload of its own stands in both. -/
inductive Resized : Word → Word → Prop
  | nil : Resized [] []
  | block {c : Char} {command : Command} {payload payload' rest rest' : Word}
      (hc : Command.ofSymbol? c = some command) (htakes : command.takesPayload)
      (hpayload : ')' ∉ payload) (hpayload' : ')' ∉ payload')
      (hsame : ¬command.isMeasured → payload' = payload) (h : Resized rest rest') :
      Resized (c :: (enclose payload ++ rest)) (c :: (enclose payload' ++ rest'))
  | symbol {c : Char} {rest rest' : Word}
      (hc : (Command.ofSymbol? c).any (·.takesPayload) → splitPayload? rest = none)
      (h : Resized rest rest') : Resized (c :: rest) (c :: rest')

structure Instruction.Resized (i j : Instruction) : Prop where
  command : j.command = i.command
  payload : ¬i.command.isMeasured → j.payload = i.payload

namespace Resized

variable {w w' : Word}

/-- Every word is made up of symbols with the payloads they take and of symbols that take none. -/
theorem refl (w : Word) : Resized w w := by
  induction h : w.length using Nat.strongRecOn generalizing w with
  | ind n ih =>
    subst h
    cases w with
    | nil => exact .nil
    | cons c rest =>
      -- A symbol that takes a payload may still have none behind it.
      by_cases hc : (Command.ofSymbol? c).any (·.takesPayload) → splitPayload? rest = none
      · exact .symbol hc (ih rest.length (Nat.lt_succ_self _) rest rfl)
      · rw [Classical.not_imp, Option.any_eq_true] at hc
        obtain ⟨⟨command, hcommand, htakes⟩, hsplit⟩ := hc
        obtain ⟨⟨payload, after⟩, hsplit⟩ := Option.ne_none_iff_exists'.1 hsplit
        have hlt : after.length < (c :: rest).length :=
          Nat.lt_succ_of_lt (length_lt_of_splitPayload? hsplit)
        obtain ⟨rfl, hpayload⟩ := splitPayload?_eq_some_iff.1 hsplit
        exact .block hcommand htakes hpayload hpayload (fun _ => rfl) (ih _ hlt after rfl)

/-- Other numbers in the payloads put no `)` where there was none. -/
theorem close_not_mem (h : Resized w w') (hw : ')' ∉ w) : ')' ∉ w' := by
  induction h with
  | nil => exact hw
  | block => simp [enclose] at hw
  | symbol hc h ih =>
    rw [List.mem_cons, not_or] at hw ⊢
    exact ⟨hw.1, ih hw.2⟩

/-- Where there is no payload in front of the one word, there is none in front of the other. -/
theorem splitPayload?_eq_none (h : Resized w w') (hw : splitPayload? w = none) :
    splitPayload? w' = none := by
  cases h with
  | nil => exact splitPayload?_nil
  | block hc =>
    rw [splitPayload?_eq_none_iff]
    rintro rfl
    cases hc
  | symbol hc h =>
    rw [splitPayload?_eq_none_iff] at hw ⊢
    exact fun hopen => h.close_not_mem (hw hopen)

/-- The turtle reads both words as the same commands, with the same payloads but for lengths and
angles. -/
theorem instructions (h : Resized w w') :
    List.Forall₂ Instruction.Resized (instructions w) (instructions w') := by
  induction h with
  | nil =>
    rw [instructions_nil]
    exact .nil
  | @block c command payload payload' rest rest' hc htakes hpayload hpayload' hsame h ih =>
    rw [instructions_cons_of_takesPayload hc htakes, instructions_cons_of_takesPayload hc htakes,
      takePayload_of_split (splitPayload?_enclose hpayload rest),
      takePayload_of_split (splitPayload?_enclose hpayload' rest')]
    exact .cons ⟨rfl, fun hm => congrArg some (hsame hm)⟩ ih
  | @symbol c rest rest' hc h ih =>
    cases hcommand : Command.ofSymbol? c with
    | none => rwa [instructions_cons_of_none hcommand, instructions_cons_of_none hcommand]
    | some command =>
      by_cases htakes : command.takesPayload
      · have hsplit : splitPayload? rest = none := hc (by rwa [hcommand, Option.any_some])
        rw [instructions_cons_of_takesPayload hcommand htakes,
          instructions_cons_of_takesPayload hcommand htakes, takePayload_of_none hsplit,
          takePayload_of_none (h.splitPayload?_eq_none hsplit)]
        exact .cons ⟨rfl, fun _ => rfl⟩ ih
      · rw [instructions_cons_of_not_takesPayload hcommand htakes,
          instructions_cons_of_not_takesPayload hcommand htakes]
        exact .cons ⟨rfl, fun _ => rfl⟩ ih

end Resized

/-! ### Walks -/

structure Pose.Resembles (pose other : Pose α) : Prop where
  radius : other.radius = pose.radius
  depth : other.depth = pose.depth

structure Walk.Resembles (walk other : Walk α) : Prop where
  pose : walk.pose.Resembles other.pose
  current : other.current = walk.current
  saved : List.Forall₂ (fun state state' : Pose α × Option Nat =>
    state.1.Resembles state'.1 ∧ state'.2 = state.2) walk.saved other.saved
  branches : List.Forall₂ Branch.Resembles walk.branches.toList other.branches.toList
  markers : List.Forall₂ Marker.Resembles walk.markers.toList other.markers.toList

namespace Walk.Resembles

variable {walk other : Walk α}

theorem size_eq (h : walk.Resembles other) : other.branches.size = walk.branches.size := by
  rw [← Array.length_toList, ← Array.length_toList, h.branches.length_eq]

theorem withPose (h : walk.Resembles other) {pose pose' : Pose α} (hpose : pose.Resembles pose') :
    ({ walk with pose } : Walk α).Resembles { other with pose := pose' } :=
  ⟨hpose, h.current, h.saved, h.branches, h.markers⟩

theorem push (h : walk.Resembles other) : walk.push.Resembles other.push := by
  have hdepth : other.push.pose.depth = walk.push.pose.depth := congrArg (· + 1) h.pose.depth
  exact ⟨⟨h.pose.radius, hdepth⟩, h.current, .cons ⟨h.pose, h.current⟩ h.saved, h.branches,
    h.markers⟩

theorem pop (h : walk.Resembles other) : walk.pop.Resembles other.pop := by
  have hsaved := h.saved
  cases hwalk : walk.saved with
  | nil =>
    rw [hwalk, List.forall₂_nil_left_iff] at hsaved
    rwa [Walk.pop_of_saved_nil hwalk, Walk.pop_of_saved_nil hsaved]
  | cons state saved =>
    rw [hwalk, List.forall₂_cons_left_iff] at hsaved
    obtain ⟨state', saved', ⟨hpose, hcurrent⟩, hrest, hother⟩ := hsaved
    rw [Walk.pop_of_saved_cons hwalk, Walk.pop_of_saved_cons hother]
    exact ⟨hpose, hcurrent, hrest, h.branches, h.markers⟩

variable [Scalar α]

theorem start : (Walk.start : Walk α).Resembles Walk.start :=
  ⟨⟨rfl, rfl⟩, rfl, .nil, .nil, .nil⟩

/-- Branches of any two lengths have the same parent, depth and radii. -/
theorem draw (h : walk.Resembles other) (length length' : α) :
    (walk.draw length).Resembles (other.draw length') := by
  have htaper : other.pose.radius * taper = walk.pose.radius * taper := by rw [h.pose.radius]
  have hcurrent : (other.draw length').current = (walk.draw length).current :=
    congrArg some h.size_eq
  refine ⟨⟨htaper, h.pose.depth⟩, hcurrent, h.saved, ?_, h.markers⟩
  rw [Walk.draw, Walk.draw, Array.toList_push, Array.toList_push]
  exact List.rel_append h.branches
    (.cons ⟨h.current, h.pose.depth, h.pose.radius, htaper⟩ .nil)

theorem mark (h : walk.Resembles other) (payload : Word) :
    (walk.mark payload).Resembles (other.mark payload) := by
  refine ⟨h.pose, h.current, h.saved, h.branches, ?_⟩
  rw [Walk.mark, Walk.mark, Array.toList_push, Array.toList_push]
  exact List.rel_append h.markers (.cons ⟨rfl, rfl, h.pose.depth, h.pose.radius⟩ .nil)

variable [Trig α]

/-- Instructions that differ in a length or an angle at most move the turtle, and nothing but it,
apart. -/
theorem step (h : walk.Resembles other) {i j : Instruction} (hi : i.Resized j)
    (angle angle' : α) : (walk.step angle i).Resembles (other.step angle' j) := by
  obtain ⟨command, payload⟩ := i
  obtain ⟨command', payload'⟩ := j
  obtain rfl : command' = command := hi.command
  have hsame : ¬command'.isMeasured → payload' = payload := hi.payload
  cases command' with
  | draw => exact h.draw _ _
  | move => exact h.withPose ⟨h.pose.radius, h.pose.depth⟩
  | turn about backward => exact h.withPose ⟨h.pose.radius, h.pose.depth⟩
  | width =>
    obtain rfl := hsame Bool.false_ne_true
    exact h.withPose ⟨rfl, h.pose.depth⟩
  | mark =>
    obtain rfl := hsame Bool.false_ne_true
    exact h.mark _
  | push => exact h.push
  | pop => exact h.pop

theorem run (h : walk.Resembles other) {list list' : List Instruction}
    (hlist : List.Forall₂ Instruction.Resized list list') (angle angle' : α) :
    (walk.run angle list).Resembles (other.run angle' list') := by
  induction hlist generalizing walk other with
  | nil => exact h
  | cons hi hlist ih => exact ih (h.step hi angle angle')

end Walk.Resembles

/-- The tree that a word draws depends neither on its lengths and angles nor on the angle of turns
without one, but for points and directions: with any others it has the same branches, on the same
parents, at the same depths and of the same radii, and the same markers. -/
theorem interpret_resembles [Scalar α] [Trig α] {w w' : Word} (h : Resized w w')
    (angle angle' : α) : (interpret angle w).Resembles (interpret angle' w') := by
  have hrun := Walk.Resembles.start.run h.instructions angle angle'
  exact ⟨hrun.branches, hrun.markers⟩

def reed (angle length : Word) : Word :=
  '+' :: (enclose angle ++ 'F' :: (enclose length ++
    ['[', '!', '(', '2', ')', '-', 'G', '@', '(', 'd', ':', 'a', ')', 'F', '(']))

/-- A turn by no number, a branch of no readable length, and turns by an angle that is none. -/
theorem reed_interpret_resembles :
    Resized (reed ['9', '0'] ['2']) (reed ['x', '('] []) ∧
      (interpret (25.0 : Float32) (reed ['9', '0'] ['2'])).Resembles
        (interpret (0.0 / 0.0) (reed ['x', '('] [])) := by
  have h : Resized (reed ['9', '0'] ['2']) (reed ['x', '('] []) :=
    .block rfl rfl (by decide) (by decide) (fun hm => absurd rfl hm)
      (.block rfl rfl (by decide) (by decide) (fun hm => absurd rfl hm) (.refl _))
  exact ⟨h, interpret_resembles h 25.0 (0.0 / 0.0)⟩

end Turtle

end Arbor
