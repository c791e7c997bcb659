import Arbor.Proofs.Scalar.Trig
import Arbor.Proofs.Space.Distance
import Arbor.Space.Rotation

/-! Unit quaternions in exact arithmetic. The product of two of them is one again, so that making it
one is no work; they turn vectors and do not stretch them. -/

namespace Arbor.Rotation

def IsUnit (q : Rotation ℝ) : Prop :=
  q.normSq = 1

def conj (q : Rotation ℝ) : Rotation ℝ :=
  ⟨-q.x, -q.y, -q.z, q.w⟩

/-- Squared norms multiply: the identity of four squares. -/
theorem normSq_mul (p q : Rotation ℝ) : (p * q).normSq = p.normSq * q.normSq := by
  simp only [mul_eq, mul, normSq]
  ring

/-- A turn and the same one back scale a quaternion by the squared norm, coordinate by coordinate.
-/
theorem mul_mul_conj (p q : Rotation ℝ) : p * q * q.conj =
    ⟨p.x * q.normSq, p.y * q.normSq, p.z * q.normSq, p.w * q.normSq⟩ := by
  ext <;> simp only [mul_eq, mul, conj, normSq] <;> ring

/-- How a quaternion of any norm scales the vectors that it turns. -/
theorem lengthSq_apply (q : Rotation ℝ) (v : Vector3 ℝ) :
    (q.apply v).lengthSq = q.normSq ^ 2 * v.lengthSq := by
  -- An identity of polynomials in the seven coordinates: the norm need not be one here.
  simp only [apply, axisPart, normSq, Vector3.lengthSq, Vector3.dot, Vector3.cross, Vector3.scale,
    Vector3.x_add, Vector3.y_add, Vector3.z_add, Scalar.two_real]
  ring

theorem isUnit_identity : (identity : Rotation ℝ).IsUnit := by
  norm_num [IsUnit, identity, normSq]

namespace IsUnit

variable {p q : Rotation ℝ}

/-- Turns one after the other are unit quaternions if both are. -/
theorem mul (hp : p.IsUnit) (hq : q.IsUnit) : (p * q).IsUnit := by
  rw [IsUnit, normSq_mul, hp, hq, one_mul]

/-- Normalizing a unit quaternion changes nothing in exact arithmetic. -/
theorem normalize_eq (h : q.IsUnit) : q.normalize = q := by
  rw [normalize, h, Scalar.sqrt_real, Real.sqrt_one]
  simp only [div_one]

/-- A turn changes no length. -/
theorem length_apply (h : q.IsUnit) (v : Vector3 ℝ) : (q.apply v).length = v.length := by
  rw [Vector3.length, lengthSq_apply, h, one_pow, one_mul, Vector3.length]

/-- A turn followed by its opposite is no turn. -/
theorem mul_mul_conj_cancel (h : q.IsUnit) (p : Rotation ℝ) : p * q * q.conj = p := by
  rw [mul_mul_conj, h]
  simp only [mul_one]

end IsUnit

section

variable [Trig ℝ] {axis : Vector3 ℝ}

theorem normSq_ofAxisAngle (axis : Vector3 ℝ) (angle : ℝ) :
    (ofAxisAngle axis angle).normSq =
      Trig.sin (angle * 0.5) ^ 2 * axis.lengthSq + Trig.cos (angle * 0.5) ^ 2 := by
  simp only [ofAxisAngle, normSq, Vector3.scale, Vector3.lengthSq, Vector3.dot]
  ring

/-- An axis of length one makes a unit quaternion out of every angle. -/
theorem isUnit_ofAxisAngle [Trig.IsCircular] (haxis : axis.lengthSq = 1) (angle : ℝ) :
    (ofAxisAngle axis angle).IsUnit := by
  rw [IsUnit, normSq_ofAxisAngle, haxis, mul_one]
  exact Trig.IsCircular.sin_sq_add_cos_sq _

/-- A turn by the opposite angle is the opposite turn. -/
theorem ofAxisAngle_neg [Trig.IsSymmetric ℝ] (axis : Vector3 ℝ) (angle : ℝ) :
    ofAxisAngle axis (-angle) = (ofAxisAngle axis angle).conj := by
  simp only [ofAxisAngle, conj, Vector3.scale, neg_mul, mul_neg, Trig.IsSymmetric.sin_neg,
    Trig.IsSymmetric.cos_neg]

end

end Arbor.Rotation
