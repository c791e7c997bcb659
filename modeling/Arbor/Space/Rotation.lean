import Arbor.Space.Vector

namespace Arbor

@[ext]
structure Rotation (α : Type) where
  x : α
  y : α
  z : α
  w : α
  deriving DecidableEq, Repr

namespace Rotation

variable {α : Type} [Scalar α]

def identity : Rotation α := ⟨0.0, 0.0, 0.0, 1.0⟩

def axisPart (q : Rotation α) : Vector3 α := ⟨q.x, q.y, q.z⟩

def ofAxisAngle [Trig α] (axis : Vector3 α) (angle : α) : Rotation α :=
  let half := angle * 0.5
  let v := axis.scale (Trig.sin half)
  ⟨v.x, v.y, v.z, Trig.cos half⟩

/-- The product of two quaternions: the second rotation, then the first. -/
def mul (p q : Rotation α) : Rotation α where
  x := (p.w * q.x + p.x * q.w) + (p.y * q.z - p.z * q.y)
  y := (p.w * q.y - p.x * q.z) + (p.y * q.w + p.z * q.x)
  z := (p.w * q.z + p.x * q.y) + (p.z * q.w - p.y * q.x)
  w := (p.w * q.w - p.x * q.x) + (-(p.y * q.y) - p.z * q.z)

instance : Mul (Rotation α) := ⟨mul⟩

theorem mul_eq (p q : Rotation α) : p * q = p.mul q := rfl

def normSq (q : Rotation α) : α :=
  (q.x * q.x + q.z * q.z) + (q.y * q.y + q.w * q.w)

def normalize (q : Rotation α) : Rotation α :=
  let size := Scalar.sqrt q.normSq
  ⟨q.x / size, q.y / size, q.z / size, q.w / size⟩

def apply (q : Rotation α) (v : Vector3 α) : Vector3 α :=
  let b := q.axisPart
  (v.scale (q.w * q.w - b.dot b) + b.scale (v.dot b * 2.0)) + (b.cross v).scale (q.w * 2.0)

def arcTolerance : α := 2.0 * 0.00000011920928955078125

/-- The shortest rotation that takes the upward axis to a unit vector. Downward, where any
horizontal axis would do, it turns about the third one. -/
def arcFromUp [Trig α] (up : Vector3 α) : Rotation α :=
  let cosine := Vector3.unitY.dot up
  if 1.0 - arcTolerance < cosine then identity
  else if cosine < -(1.0 - arcTolerance) then
    ofAxisAngle ⟨0.0, 0.0, -1.0⟩ 3.141592653589793
  else
    let axis := Vector3.unitY.cross up
    normalize ⟨axis.x, axis.y, axis.z, 1.0 + cosine⟩

end Rotation

end Arbor
