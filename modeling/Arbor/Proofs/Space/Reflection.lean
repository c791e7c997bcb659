import Mathlib.Tactic.Ring
import Arbor.Proofs.Scalar.Real
import Arbor.Space.Rotation

/-! Mirrors through the vertical axis, in exact arithmetic. A mirror turns round one horizontal
coordinate of every point. It takes a rotation to the one that does the same to the mirrored points,
about the mirrored axis and the other way round. -/

namespace Arbor

/-- A vertical mirror, by the coordinate that it turns round. -/
inductive Reflection
  | x
  | z
  deriving DecidableEq, Repr

namespace Reflection

section

variable {α : Type} [Scalar α]

def point : Reflection → Vector3 α → Vector3 α
  | x, v => ⟨-v.x, v.y, v.z⟩
  | z, v => ⟨v.x, v.y, -v.z⟩

def rotation : Reflection → Rotation α → Rotation α
  | x, q => ⟨q.x, -q.y, -q.z, q.w⟩
  | z, q => ⟨-q.x, -q.y, q.z, q.w⟩

end

variable (r : Reflection)

theorem point_zero : r.point (.zero : Vector3 ℝ) = .zero := by
  cases r <;> norm_num [point, Vector3.zero]

/-- A vertical mirror does not turn up into down. -/
theorem point_unitY : r.point (.unitY : Vector3 ℝ) = .unitY := by
  cases r <;> norm_num [point, Vector3.unitY]

theorem point_add (v w : Vector3 ℝ) : r.point (v + w) = r.point v + r.point w := by
  cases r <;> ext <;> simp only [point, Vector3.x_add, Vector3.y_add, Vector3.z_add, neg_add]

theorem point_scale (v : Vector3 ℝ) (factor : ℝ) :
    r.point (v.scale factor) = (r.point v).scale factor := by
  cases r <;> simp only [point, Vector3.scale, neg_mul]

theorem rotation_identity : r.rotation (.identity : Rotation ℝ) = .identity := by
  cases r <;> norm_num [rotation, Rotation.identity]

/-- Mirroring respects the composition of rotations. -/
theorem rotation_mul (p q : Rotation ℝ) : r.rotation (p * q) = r.rotation p * r.rotation q := by
  cases r <;> ext <;> simp only [rotation, Rotation.mul_eq, Rotation.mul] <;> ring

/-- The mirror changes only signs of a quaternion, and so no norm. -/
theorem normSq_rotation (q : Rotation ℝ) : (r.rotation q).normSq = q.normSq := by
  cases r <;> simp only [rotation, Rotation.normSq, neg_mul_neg]

/-- A normalized rotation in the mirror is the mirrored one, normalized. -/
theorem rotation_normalize (q : Rotation ℝ) :
    r.rotation q.normalize = (r.rotation q).normalize := by
  have hnorm := r.normSq_rotation q
  cases r <;> simp only [Rotation.normalize, hnorm] <;> simp only [rotation, neg_div]

/-- The mirrored rotation does to mirrored points what the rotation does to points. -/
theorem rotation_apply (q : Rotation ℝ) (v : Vector3 ℝ) :
    (r.rotation q).apply (r.point v) = r.point (q.apply v) := by
  cases r <;> ext <;> simp only [rotation, point, Rotation.apply, Rotation.axisPart, Vector3.dot,
    Vector3.cross, Vector3.scale, Vector3.x_add, Vector3.y_add, Vector3.z_add,
    Scalar.two_real] <;> ring

end Reflection

end Arbor
