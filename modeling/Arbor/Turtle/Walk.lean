import Arbor.Skeleton.Basic
import Arbor.Symbols.Numeral
import Arbor.Turtle.Pose

/-! The turtle's walk. A branch refers to the one it grew from by its place in the list, which is
always an earlier one. -/

namespace Arbor.Turtle

variable {α : Type} [Scalar α]

def defaultWidth : α := 0.1

def taper : α := 0.95

def defaultAngle : α := 25.0

/-- The turtle on its way: its pose, the branch it stands on, what the open brackets saved, and
what it has drawn and placed. -/
structure Walk (α : Type) where
  pose : Pose α
  current : Option Nat
  saved : List (Pose α × Option Nat)
  branches : Array (Branch α)
  markers : Array (Marker α)

namespace Walk

def start : Walk α := ⟨.start, none, [], #[], #[]⟩

def draw (walk : Walk α) (length : α) : Walk α :=
  let pose := walk.pose.advance length
  let tipRadius := walk.pose.radius * taper
  { walk with
    pose := { pose with radius := tipRadius }
    current := some walk.branches.size
    branches := walk.branches.push
      { base := walk.pose.position
        tip := pose.position
        baseRadius := walk.pose.radius
        tipRadius
        depth := walk.pose.depth
        parent := walk.current } }

def mark (walk : Walk α) (payload : Word) : Walk α :=
  let (kind, path) := EntryKind.ofPayload payload
  { walk with
    markers := walk.markers.push
      { position := walk.pose.position
        path
        kind
        depth := walk.pose.depth
        radius := walk.pose.radius
        direction := walk.pose.heading } }

def push (walk : Walk α) : Walk α :=
  { walk with
    pose := { walk.pose with depth := walk.pose.depth + 1 }
    saved := (walk.pose, walk.current) :: walk.saved }

def pop (walk : Walk α) : Walk α :=
  match walk.saved with
  | [] => walk
  | (pose, current) :: saved => { walk with pose, current, saved }

/-- Carries out one instruction. A turn without a number is by `angle` degrees. -/
def step [Trig α] (angle : α) (walk : Walk α) (instruction : Instruction) : Walk α :=
  match instruction.command with
  | .draw => walk.draw (Numeral.valueOr instruction.payload 1.0)
  | .move => { walk with pose := walk.pose.advance (Numeral.valueOr instruction.payload 1.0) }
  | .turn about backward =>
    let degrees := Numeral.valueOr instruction.payload angle
    { walk with pose := walk.pose.rotate about.axis (if backward then -degrees else degrees) }
  | .width =>
    { walk with pose :=
        { walk.pose with radius := Numeral.valueOr instruction.payload defaultWidth } }
  | .mark => walk.mark (instruction.payload.getD [])
  | .push => walk.push
  | .pop => walk.pop

/-- A bracket that closes none changes nothing. -/
theorem pop_of_saved_nil {α : Type} {walk : Walk α} (h : walk.saved = []) : walk.pop = walk := by
  rw [pop, h]

theorem pop_of_saved_cons {α : Type} {walk : Walk α} {state : Pose α × Option Nat}
    {saved : List (Pose α × Option Nat)} (h : walk.saved = state :: saved) :
    walk.pop = { walk with pose := state.1, current := state.2, saved } := by
  rw [pop, h]

@[simp]
theorem branches_pop {α : Type} (walk : Walk α) : walk.pop.branches = walk.branches := by
  unfold pop
  split <;> rfl

@[simp]
theorem markers_pop {α : Type} (walk : Walk α) : walk.pop.markers = walk.markers := by
  unfold pop
  split <;> rfl

/-- Only a draw adds a branch. -/
theorem branches_step_of_ne [Trig α] (angle : α) (walk : Walk α) {i : Instruction}
    (h : i.command ≠ .draw) : (walk.step angle i).branches = walk.branches := by
  obtain ⟨command, payload⟩ := i
  cases command with
  | draw => exact absurd rfl h
  | pop => exact walk.branches_pop
  | _ => rfl

/-- Only a mark adds a marker. -/
theorem markers_step_of_ne [Trig α] (angle : α) (walk : Walk α) {i : Instruction}
    (h : i.command ≠ .mark) : (walk.step angle i).markers = walk.markers := by
  obtain ⟨command, payload⟩ := i
  cases command with
  | mark => exact absurd rfl h
  | pop => exact walk.markers_pop
  | _ => rfl

def run [Trig α] (angle : α) (walk : Walk α) (list : List Instruction) : Walk α :=
  list.foldl (step angle) walk

@[simp]
theorem run_nil [Trig α] (angle : α) (walk : Walk α) : walk.run angle [] = walk := rfl

@[simp]
theorem run_cons [Trig α] (angle : α) (walk : Walk α) (i : Instruction) (list : List Instruction) :
    walk.run angle (i :: list) = (walk.step angle i).run angle list := rfl

theorem run_append [Trig α] (angle : α) (walk : Walk α) (first second : List Instruction) :
    walk.run angle (first ++ second) = (walk.run angle first).run angle second :=
  List.foldl_append

def skeleton (walk : Walk α) : Skeleton α :=
  ⟨walk.branches, walk.markers⟩

end Walk

def interpret [Trig α] (angle : α) (w : Word) : Skeleton α :=
  (Walk.start.run angle (instructions w)).skeleton

end Arbor.Turtle
