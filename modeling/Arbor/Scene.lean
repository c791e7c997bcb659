import Arbor.Camera.Flight
import Arbor.Camera.View
import Arbor.FileTree.System
import Arbor.Turtle.Walk

/-! From a file hierarchy to everything that stands around its tree. -/

namespace Arbor

/-- Everything grown from a file hierarchy: the word that draws it, the tree, the index over the
tree, its measures, and the nest on its trunk if the trunk forks. -/
structure Scene (α : Type) [Scalar α] where
  symbols : Word
  skeleton : Skeleton α
  index : SpatialIndex α
  platform : Platform α
  nest : Option (Nest α)

variable {α β : Type} [Scalar α] [Trig α] [Scalar β]

def LSystem.skeleton (system : LSystem α) : Skeleton α :=
  Turtle.interpret system.angle system.expand

namespace Scene

def ofSystem (system : LSystem α) : Scene α :=
  let skeleton := system.skeleton
  let platform := Platform.measure skeleton
  { symbols := system.expand
    skeleton
    index := .ofSkeleton skeleton
    platform
    nest := Nest.root? skeleton.branches platform }

def ofFileTree (tree : FileTree) (hotspots : List (Hotspot β)) (base : UInt32) : Scene α :=
  ofSystem (LSystem.ofFileTree tree hotspots base)

def flightView (pose : Flight.Pose α) (elapsed : α) : View α where
  position := pose.position
  forward := (pose.target - pose.position).normalizeOrZero
  mode := .firstPerson
  player := none
  sinceChange := elapsed

def fly? (scene : Scene α) (flight : Flight α) (elapsed : α) :
    Option (Flight.Pose α × Report α) :=
  scene.nest.map fun nest =>
    let pose := flight.pose nest scene.platform elapsed
    (pose, (flightView pose elapsed).check .standard (some nest) (some scene.index))

end Scene

end Arbor
