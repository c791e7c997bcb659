import Arbor.Landmark.Nest

/-! A flight of the camera around a nest and into it, as a function of time. The approach starts
where the orbit ends. -/

namespace Arbor

structure Flight (α : Type) where
  speed : α
  laps : α
  approach : α
  deriving DecidableEq, Repr

namespace Flight

variable {α : Type} [Scalar α]

inductive Phase
  | orbit
  | approach
  | arrived
  deriving DecidableEq, Repr

structure Pose (α : Type) where
  position : Vector3 α
  target : Vector3 α
  phase : Phase
  deriving DecidableEq, Repr

def standard : Flight α := ⟨0.15, 1.5, 4.0⟩

def lap : α := 6.283185307179586

/-- The seconds in orbit, zero unless speed and laps are positive and their ratio is finite. -/
def orbitDuration (flight : Flight α) : α :=
  let duration := flight.laps * lap / flight.speed
  if 0.0 < flight.speed ∧ 0.0 < flight.laps ∧ Scalar.isFinite duration then duration else 0.0

def duration (flight : Flight α) : α :=
  flight.orbitDuration + Scalar.maxNum flight.approach 0.0

def orbitPoint [Trig α] (nest : Nest α) (platform : Platform α) (angle elapsed : α) : Vector3 α :=
  let sway := 0.15 * platform.treeHeight * Trig.sin (0.7 * elapsed)
  ⟨nest.position.x + platform.treeSpan * 0.8 * Trig.cos angle,
    nest.position.y + platform.treeHeight * 0.6 + sway,
    nest.position.z + platform.treeSpan * 0.5 * Trig.sin angle⟩

def hoverPoint (nest : Nest α) : Vector3 α :=
  ⟨nest.position.x, nest.position.y + nest.depth + nest.radius * 0.8, nest.position.z⟩

def orbitEnd [Trig α] (flight : Flight α) (nest : Nest α) (platform : Platform α) : Vector3 α :=
  orbitPoint nest platform (flight.orbitDuration * flight.speed) flight.orbitDuration

def ease (t : α) : α :=
  if t < 0.5 then 4.0 * t * t * t
  else
    let u := -2.0 * t + 2.0
    1.0 - u * u * u / 2.0

def arc (first control last : Vector3 α) (t : α) : Vector3 α :=
  let u := 1.0 - t
  first.scale (u * u) + control.scale (2.0 * u * t) + last.scale (t * t)

def control (first last : Vector3 α) (platform : Platform α) : Vector3 α :=
  ⟨(first.x + last.x) * 0.5, Scalar.maxNum first.y last.y + platform.treeHeight * 0.2,
    (first.z + last.z) * 0.5⟩

def progress (flight : Flight α) (since : α) : α :=
  ease (Scalar.clamp (since / flight.approach) 0.0 1.0)

def approachPoint [Trig α] (flight : Flight α) (nest : Nest α) (platform : Platform α)
    (since : α) : Vector3 α :=
  let first := flight.orbitEnd nest platform
  let last := hoverPoint nest
  arc first (control first last platform) last (flight.progress since)

def phase (flight : Flight α) (elapsed : α) : Phase :=
  if elapsed < flight.orbitDuration then .orbit
  else if flight.approach ≤ elapsed - flight.orbitDuration ∨ Scalar.isNaN flight.approach then
    .arrived
  else .approach

def pose [Trig α] (flight : Flight α) (nest : Nest α) (platform : Platform α) (elapsed : α) :
    Pose α :=
  let phase := flight.phase elapsed
  let position := match phase with
    | .orbit => orbitPoint nest platform (elapsed * flight.speed) elapsed
    | .approach => flight.approachPoint nest platform (elapsed - flight.orbitDuration)
    | .arrived => hoverPoint nest
  ⟨position, nest.position, phase⟩

def orbitSteps (flight : Flight α) (samples : Nat) : Nat :=
  max 1 (Scalar.ceilNat ((max 1 samples : Nat) * Scalar.maxNum flight.laps 0.0))

def approachSteps (samples : Nat) : Nat :=
  (max 1 samples + 1) / 2

def sampleTimes (flight : Flight α) (samples : Nat) : List α :=
  let orbit := flight.orbitSteps samples
  let approach := approachSteps samples
  ((List.range (orbit + 1)).map fun (i : Nat) => (i : α) / (orbit : α) * flight.orbitDuration) ++
    (List.range approach).map fun (i : Nat) =>
      flight.orbitDuration +
        ((i + 1 : Nat) : α) / (approach : α) * Scalar.maxNum flight.approach 0.0

def pointCount (flight : Flight α) (samples : Nat) : Nat :=
  flight.orbitSteps samples + approachSteps samples + 1

/-- The greatest number of points, of twelve bytes each, that 63 bits of addresses can hold. -/
def maxPoints : Nat := 768614336404564650

/-- Why a flight has no path: its points are too many to be counted in 64 bits, or too many to be
stored. -/
inductive PathError
  | uncountable
  | unstorable
  deriving DecidableEq, Repr

def path [Trig α] (flight : Flight α) (nest : Nest α) (platform : Platform α) (samples : Nat) :
    List (Vector3 α) :=
  (flight.sampleTimes samples).map fun t => (flight.pose nest platform t).position

def path? [Trig α] (flight : Flight α) (nest : Nest α) (platform : Platform α) (samples : Nat) :
    Except PathError (List (Vector3 α)) :=
  let count := flight.pointCount samples
  if maxNat64 < count then .error .uncountable
  else if maxPoints < count then .error .unstorable
  else .ok (flight.path nest platform samples)

end Flight

end Arbor
