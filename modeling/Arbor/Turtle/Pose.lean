import Arbor.Space.Rotation
import Arbor.Turtle.Instruction

namespace Arbor.Turtle

variable {α : Type} [Scalar α]

def Turn.axis : Turn → Vector3 α
  | yaw => .unitZ
  | pitch => .unitX
  | roll => .unitY

def initialRadius : α := 0.15

structure Pose (α : Type) where
  position : Vector3 α
  orientation : Rotation α
  radius : α
  depth : Nat
  deriving DecidableEq, Repr

namespace Pose

def start : Pose α := ⟨.zero, .identity, initialRadius, 0⟩

def heading (pose : Pose α) : Vector3 α :=
  pose.orientation.apply .unitY

def rotate [Trig α] (pose : Pose α) (axis : Vector3 α) (degrees : α) : Pose α :=
  { pose with
    orientation :=
      (pose.orientation * Rotation.ofAxisAngle axis (Scalar.radians degrees)).normalize }

def advance (pose : Pose α) (distance : α) : Pose α :=
  { pose with position := pose.position + pose.heading.scale distance }

end Pose

end Arbor.Turtle
