import Arbor.Skeleton.Basic

/-! The scale of a tree. Every size around it is a multiple of a few of its measures, so that trees
of all sizes look alike. -/

namespace Arbor

structure Platform (α : Type) where
  origin : Vector3 α
  trunkRadius : α
  trunkLength : α
  treeHeight : α
  /-- The larger of the two horizontal extents. -/
  treeSpan : α
  deriving DecidableEq, Repr

structure Dimensions (α : Type) where
  platformRadius : α
  platformThickness : α
  wellRadius : α
  wellHeight : α
  rimTubeRadius : α
  innerRingInner : α
  innerRingOuter : α
  outerRingInner : α
  outerRingOuter : α
  routeLength : α
  routeBaseRadius : α
  routeTipRadius : α
  playerHeight : α
  moveSpeed : α
  strafeSpeed : α
  jumpStrength : α
  gravityStrength : α
  lookAheadDistance : α
  surfaceDamping : α
  overviewPosition : Vector3 α
  overviewTarget : Vector3 α
  spawnPoint : Vector3 α
  overviewMinDistance : α
  overviewMaxDistance : α
  platformRadiusSq : α
  /-- The height below which the player stands on the platform. -/
  standingHeight : α
  deriving DecidableEq, Repr

namespace Platform

variable {α : Type} [Scalar α]

def referenceRadius : α := 0.3

def fallback : Platform α := ⟨.zero, referenceRadius, 3.0, 15.0, 10.0⟩

def measure (skeleton : Skeleton α) : Platform α :=
  match skeleton.branches[0]? with
  | none => fallback
  | some trunk =>
    let size := skeleton.bounds.size
    { origin := trunk.base
      trunkRadius := trunk.baseRadius
      trunkLength := trunk.length
      treeHeight := size.y
      treeSpan := Scalar.maxNum size.x size.z }

def scale (platform : Platform α) : α :=
  platform.trunkRadius / referenceRadius

/-- The largest of the tree's extents and the width of its platform. -/
def extent (platform : Platform α) : α :=
  Scalar.maxNum (Scalar.maxNum platform.treeHeight platform.treeSpan)
    (platform.trunkRadius * 10.0 * 2.0)

def dimensions (platform : Platform α) : Dimensions α :=
  let r := platform.trunkRadius
  let scale := platform.scale
  let o := platform.origin
  let platformRadius := r * 10.0
  let ringWidth := r * 0.33
  let innerRing := platformRadius * 0.33
  let outerRing := platformRadius * 0.83
  let extent := platform.extent
  let overview := extent * 1.2
  let playerHeight := 1.5 * scale
  { platformRadius
    platformThickness := r * 0.5
    wellRadius := r * 1.17
    wellHeight := r
    rimTubeRadius := r * 0.1
    innerRingInner := innerRing - ringWidth / 2.0
    innerRingOuter := innerRing + ringWidth / 2.0
    outerRingInner := outerRing - ringWidth / 2.0
    outerRingOuter := outerRing + ringWidth / 2.0
    routeLength := r * 5.0
    routeBaseRadius := r * 0.067
    routeTipRadius := r * 0.05
    playerHeight
    moveSpeed := 4.0 * scale
    strafeSpeed := 2.0 * scale
    jumpStrength := 5.0 * scale
    gravityStrength := 12.0 * scale
    lookAheadDistance := 3.0 * scale
    surfaceDamping := 0.15
    overviewPosition :=
      ⟨o.x + overview * 0.6, platform.treeHeight * 0.6 + o.y, o.z - overview * 0.8⟩
    overviewTarget := ⟨o.x, o.y + platform.trunkLength * 0.5, o.z⟩
    spawnPoint := ⟨o.x, o.y + playerHeight, o.z - platformRadius * 0.8⟩
    overviewMinDistance := extent * 0.15
    overviewMaxDistance := extent * 4.0
    platformRadiusSq := platformRadius * platformRadius
    standingHeight := o.y + playerHeight }

end Platform

end Arbor
