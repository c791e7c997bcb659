import Mathlib.Analysis.Complex.Trigonometric
import Arbor.Proofs.Scalar.Real

/-! What statements about exact angles ask of a sine and a cosine. -/

namespace Arbor

namespace Trig

class IsSymmetric (α : Type) [Scalar α] [Trig α] : Prop where
  sin_neg : ∀ x : α, sin (-x) = -sin x
  cos_neg : ∀ x : α, cos (-x) = cos x

class IsCircular [Trig ℝ] : Prop where
  sin_sq_add_cos_sq : ∀ x : ℝ, sin x ^ 2 + cos x ^ 2 = 1

class IsBounded [Trig ℝ] : Prop where
  abs_sin_le_one : ∀ x : ℝ, |sin x| ≤ 1
  abs_cos_le_one : ∀ x : ℝ, |cos x| ≤ 1

/-- No point of the unit circle is further away along an axis. -/
instance [Trig ℝ] [IsCircular] : IsBounded where
  abs_sin_le_one x := by
    rw [← sq_le_one_iff_abs_le_one, ← IsCircular.sin_sq_add_cos_sq x]
    exact le_add_of_nonneg_right (sq_nonneg _)
  abs_cos_le_one x := by
    rw [← sq_le_one_iff_abs_le_one, ← IsCircular.sin_sq_add_cos_sq x]
    exact le_add_of_nonneg_left (sq_nonneg _)

end Trig

noncomputable instance : Trig ℝ where
  sin := Real.sin
  cos := Real.cos

instance : Trig.IsSymmetric ℝ where
  sin_neg := Real.sin_neg
  cos_neg := Real.cos_neg

instance : Trig.IsCircular where
  sin_sq_add_cos_sq := Real.sin_sq_add_cos_sq

end Arbor
