import Arbor.Scalar.Basic

/-! Vectors over any scalars. The order of the operations is part of each definition, since sums
and products of machine numbers depend on it. -/

namespace Arbor

@[ext]
structure Vector3 (α : Type) where
  x : α
  y : α
  z : α
  deriving DecidableEq, Repr

namespace Vector3

variable {α : Type} [Scalar α]

def zero : Vector3 α := ⟨0.0, 0.0, 0.0⟩

def unitX : Vector3 α := ⟨1.0, 0.0, 0.0⟩

def unitY : Vector3 α := ⟨0.0, 1.0, 0.0⟩

def unitZ : Vector3 α := ⟨0.0, 0.0, 1.0⟩

def add (v w : Vector3 α) : Vector3 α := ⟨v.x + w.x, v.y + w.y, v.z + w.z⟩

def sub (v w : Vector3 α) : Vector3 α := ⟨v.x - w.x, v.y - w.y, v.z - w.z⟩

instance : Add (Vector3 α) := ⟨add⟩

instance : Sub (Vector3 α) := ⟨sub⟩

@[simp]
theorem x_add (v w : Vector3 α) : (v + w).x = v.x + w.x := rfl

@[simp]
theorem y_add (v w : Vector3 α) : (v + w).y = v.y + w.y := rfl

@[simp]
theorem z_add (v w : Vector3 α) : (v + w).z = v.z + w.z := rfl

@[simp]
theorem x_sub (v w : Vector3 α) : (v - w).x = v.x - w.x := rfl

@[simp]
theorem y_sub (v w : Vector3 α) : (v - w).y = v.y - w.y := rfl

@[simp]
theorem z_sub (v w : Vector3 α) : (v - w).z = v.z - w.z := rfl

def scale (v : Vector3 α) (factor : α) : Vector3 α :=
  ⟨v.x * factor, v.y * factor, v.z * factor⟩

def dot (v w : Vector3 α) : α :=
  v.x * w.x + v.y * w.y + v.z * w.z

def cross (v w : Vector3 α) : Vector3 α :=
  ⟨v.y * w.z - w.y * v.z, v.z * w.x - w.z * v.x, v.x * w.y - w.x * v.y⟩

def lengthSq (v : Vector3 α) : α := v.dot v

def length (v : Vector3 α) : α := Scalar.sqrt v.lengthSq

def distanceSq (v w : Vector3 α) : α := (v - w).lengthSq

def distance (v w : Vector3 α) : α := (v - w).length

/-- The vector of length one in the same direction. There is none where the length or its inverse
is no positive number of finite size. -/
def normalize? (v : Vector3 α) : Option (Vector3 α) :=
  let inverse := 1.0 / v.length
  if Scalar.isFinite inverse ∧ 0.0 < inverse then some (v.scale inverse) else none

def normalizeOrZero (v : Vector3 α) : Vector3 α :=
  v.normalize?.getD zero

def lerp (v w : Vector3 α) (t : α) : Vector3 α :=
  v.scale (1.0 - t) + w.scale t

def min (v w : Vector3 α) : Vector3 α :=
  ⟨if v.x < w.x then v.x else w.x, if v.y < w.y then v.y else w.y, if v.z < w.z then v.z else w.z⟩

def max (v w : Vector3 α) : Vector3 α :=
  ⟨if w.x < v.x then v.x else w.x, if w.y < v.y then v.y else w.y, if w.z < v.z then v.z else w.z⟩

def largest (v : Vector3 α) : α :=
  let yz := if v.z < v.y then v.y else v.z
  if yz < v.x then v.x else yz

end Vector3

end Arbor
