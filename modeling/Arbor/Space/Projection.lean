import Arbor.Space.Vector

namespace Arbor

structure Projection (α : Type) where
  ratio : α
  point : Vector3 α
  deriving DecidableEq, Repr

namespace Projection

variable {α : Type} [Scalar α]

/-- The squared length below which a segment counts as its first point. -/
def degenerateLengthSq : α := 0.0000000001

def onto (p first last : Vector3 α) : Projection α :=
  let axis := last - first
  let ratio :=
    if axis.lengthSq < degenerateLengthSq then 0.0
    else Scalar.clamp ((p - first).dot axis / axis.lengthSq) 0.0 1.0
  ⟨ratio, first + axis.scale ratio⟩

end Projection

end Arbor
