import Arbor.Space.Vector

namespace Arbor

@[ext]
structure Box (α : Type) where
  lower : Vector3 α
  upper : Vector3 α
  deriving DecidableEq, Repr

namespace Box

variable {α : Type} [Scalar α]

def origin : Box α := ⟨.zero, .zero⟩

def insert (box : Box α) (p : Vector3 α) : Box α :=
  ⟨box.lower.min p, box.upper.max p⟩

def ofPoints? : List (Vector3 α) → Option (Box α)
  | [] => none
  | p :: points => some (points.foldl insert ⟨p, p⟩)

def contains (box : Box α) (p : Vector3 α) : Bool :=
  (box.lower.x ≤ p.x ∧ box.lower.y ≤ p.y ∧ box.lower.z ≤ p.z) ∧
    (p.x ≤ box.upper.x ∧ p.y ≤ box.upper.y ∧ p.z ≤ box.upper.z)

def size (box : Box α) : Vector3 α :=
  (box.upper - box.lower).max .zero

def center (box : Box α) : Vector3 α :=
  (box.lower + box.upper).scale 0.5

def longestSide (box : Box α) : α :=
  box.size.largest

def isFlat (box : Box α) : Bool :=
  box.upper.x ≤ box.lower.x ∨ box.upper.y ≤ box.lower.y ∨ box.upper.z ≤ box.lower.z

end Box

end Arbor
