import Mathlib.Analysis.InnerProductSpace.PiL2
import Arbor.Proofs.Space.Distance

/-! Vectors in exact arithmetic as those of Euclidean space, where distances are known to obey the
triangle inequality. -/

namespace Arbor.Vector3

noncomputable def toEuclidean (v : Vector3 ℝ) : EuclideanSpace ℝ (Fin 3) :=
  (EuclideanSpace.equiv (Fin 3) ℝ).symm ![v.x, v.y, v.z]

theorem toEuclidean_sub (v w : Vector3 ℝ) :
    (v - w).toEuclidean = v.toEuclidean - w.toEuclidean := by
  ext i
  fin_cases i <;> rfl

/-- Lengths are norms of the Euclidean space of three dimensions. -/
theorem norm_toEuclidean (v : Vector3 ℝ) : ‖v.toEuclidean‖ = v.length := by
  rw [EuclideanSpace.norm_eq, Fin.sum_univ_three, length, lengthSq_eq]
  simp only [Real.norm_eq_abs, sq_abs]
  rfl

/-- Distances are those of the Euclidean space of three dimensions. -/
theorem dist_toEuclidean (p q : Vector3 ℝ) :
    dist p.toEuclidean q.toEuclidean = p.distance q := by
  rw [dist_eq_norm, ← toEuclidean_sub, norm_toEuclidean, distance]

theorem distance_triangle (p q s : Vector3 ℝ) :
    p.distance s ≤ p.distance q + q.distance s := by
  rw [← dist_toEuclidean, ← dist_toEuclidean, ← dist_toEuclidean]
  exact dist_triangle _ _ _

end Arbor.Vector3
