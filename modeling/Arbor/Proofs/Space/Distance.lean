import Mathlib.Tactic.Linarith
import Mathlib.Tactic.Positivity
import Mathlib.Tactic.Ring
import Arbor.Proofs.Scalar.Real
import Arbor.Space.Projection

/-! Distances in exact arithmetic, coordinate by coordinate. -/

namespace Arbor.Vector3

structure Within (p q : Vector3 ℝ) (r : ℝ) : Prop where
  x_le : |p.x - q.x| ≤ r
  y_le : |p.y - q.y| ≤ r
  z_le : |p.z - q.z| ≤ r

theorem Within.trans {p q s : Vector3 ℝ} {r r' : ℝ} (h : Within p q r) (h' : Within q s r') :
    Within p s (r + r') :=
  ⟨(abs_sub_le _ _ _).trans (add_le_add h.x_le h'.x_le),
    (abs_sub_le _ _ _).trans (add_le_add h.y_le h'.y_le),
    (abs_sub_le _ _ _).trans (add_le_add h.z_le h'.z_le)⟩

theorem Within.mono {p q : Vector3 ℝ} {r r' : ℝ} (h : Within p q r) (hr : r ≤ r') :
    Within p q r' :=
  ⟨h.x_le.trans hr, h.y_le.trans hr, h.z_le.trans hr⟩

/-- The square of a length is the sum of the squares of the coordinates. -/
theorem lengthSq_eq (v : Vector3 ℝ) : v.lengthSq = v.x ^ 2 + v.y ^ 2 + v.z ^ 2 := by
  rw [lengthSq, dot]
  ring

theorem length_nonneg (v : Vector3 ℝ) : 0 ≤ v.length :=
  Real.sqrt_nonneg _

theorem length_scale (v : Vector3 ℝ) (factor : ℝ) :
    (v.scale factor).length = |factor| * v.length := by
  have hsq : (v.scale factor).lengthSq = factor ^ 2 * v.lengthSq := by
    rw [lengthSq_eq, lengthSq_eq, scale]
    ring
  rw [length, length, Scalar.sqrt_real, hsq, Real.sqrt_mul (sq_nonneg factor),
    Real.sqrt_sq_eq_abs, Scalar.sqrt_real]

theorem length_unitY : (unitY : Vector3 ℝ).length = 1 := by
  rw [length, Scalar.sqrt_real, lengthSq_eq, Real.sqrt_eq_one]
  norm_num [unitY]

/-- Only a vector of some length has a direction, and that is one long. -/
theorem length_of_normalize? {v direction : Vector3 ℝ} (h : v.normalize? = some direction) :
    direction.length = 1 := by
  rw [normalize?] at h
  obtain ⟨⟨-, hpos⟩, hdirection⟩ := Option.ite_none_right_eq_some.1 h
  obtain rfl := Option.some.inj hdirection
  rw [Scalar.one_real, Scalar.zero_real, one_div, inv_pos] at hpos
  rw [length_scale, Scalar.one_real, one_div, abs_of_pos (inv_pos.2 hpos)]
  exact inv_mul_cancel₀ hpos.ne'

/-- Points that are near along each axis are near, by the diagonal of a cube. -/
theorem Within.distance_le {p q : Vector3 ℝ} {r : ℝ} (h : Within p q r) :
    p.distance q ≤ √3 * r := by
  have hr : 0 ≤ r := (abs_nonneg _).trans h.x_le
  have hsq : (p - q).lengthSq ≤ 3 * r ^ 2 := by
    have hx := sq_le_sq' (neg_le_of_abs_le h.x_le) (le_of_abs_le h.x_le)
    have hy := sq_le_sq' (neg_le_of_abs_le h.y_le) (le_of_abs_le h.y_le)
    have hz := sq_le_sq' (neg_le_of_abs_le h.z_le) (le_of_abs_le h.z_le)
    rw [lengthSq_eq, x_sub, y_sub, z_sub]
    linarith
  calc p.distance q = √(p - q).lengthSq := rfl
    _ ≤ √(3 * r ^ 2) := Real.sqrt_le_sqrt hsq
    _ = √3 * r := by rw [Real.sqrt_mul (by norm_num), Real.sqrt_sq hr]

theorem distance_nonneg (p q : Vector3 ℝ) : 0 ≤ p.distance q :=
  length_nonneg _

/-- A displacement leads as far from a point as it is long. -/
theorem distance_add (p v : Vector3 ℝ) : p.distance (p + v) = v.length := by
  have hsq : (p - (p + v)).lengthSq = v.lengthSq := by
    rw [lengthSq_eq, lengthSq_eq]
    simp only [x_sub, y_sub, z_sub, x_add, y_add, z_add]
    ring
  rw [distance, length, length, hsq]

theorem abs_le_length {v : Vector3 ℝ} {d : ℝ} (h : d ^ 2 ≤ v.x ^ 2 + v.y ^ 2 + v.z ^ 2) :
    |d| ≤ v.length := by
  apply Real.abs_le_sqrt
  rw [lengthSq_eq]
  exact h

theorem abs_coordinate_le_length (v : Vector3 ℝ) :
    |v.x| ≤ v.length ∧ |v.y| ≤ v.length ∧ |v.z| ≤ v.length := by
  have hx := sq_nonneg v.x
  have hy := sq_nonneg v.y
  have hz := sq_nonneg v.z
  refine ⟨abs_le_length ?_, abs_le_length ?_, abs_le_length ?_⟩
  · linarith
  · linarith
  · linarith

/-- Points are no further apart along an axis than they are at all. -/
theorem within_distance (p q : Vector3 ℝ) : Within p q (p.distance q) := by
  obtain ⟨hx, hy, hz⟩ := abs_coordinate_le_length (p - q)
  exact ⟨hx, hy, hz⟩

theorem distance_comm (p q : Vector3 ℝ) : p.distance q = q.distance p := by
  have hsq : (p - q).lengthSq = (q - p).lengthSq := by
    rw [lengthSq_eq, lengthSq_eq]
    simp only [x_sub, y_sub, z_sub]
    ring
  rw [distance, distance, length, length, hsq]

/-- The point at ratio `t` on the way from `v` to `w`. -/
theorem lerp_real (v w : Vector3 ℝ) (t : ℝ) : v.lerp w t = v + (w - v).scale t := by
  have hcoordinate (a b : ℝ) : a * (1.0 - t) + b * t = a + (b - a) * t := by
    norm_num
    ring
  ext
  · exact hcoordinate v.x w.x
  · exact hcoordinate v.y w.y
  · exact hcoordinate v.z w.z

theorem lerp_zero (v w : Vector3 ℝ) : v.lerp w 0 = v := by
  rw [lerp_real]
  ext <;> simp [scale]

theorem lerp_one (v w : Vector3 ℝ) : v.lerp w 1 = w := by
  rw [lerp_real]
  ext <;> simp [scale]

/-- Points of a segment are no further apart, along any axis, than their ratios allow. -/
theorem within_lerp (v w : Vector3 ℝ) (t t' : ℝ) :
    Within (v.lerp w t) (v.lerp w t') (v.distance w * |t - t'|) := by
  have hcoordinate (a : ℝ) {d : ℝ} (hd : |d| ≤ v.distance w) :
      |a + d * t - (a + d * t')| ≤ v.distance w * |t - t'| := by
    have hdiff : a + d * t - (a + d * t') = d * (t - t') := by ring
    calc |a + d * t - (a + d * t')| = |d| * |t - t'| := by rw [hdiff, abs_mul]
      _ ≤ v.distance w * |t - t'| := mul_le_mul_of_nonneg_right hd (abs_nonneg _)
  obtain ⟨hx, hy, hz⟩ := abs_coordinate_le_length (w - v)
  -- Along each axis the points move at most as far apart as the ends are.
  have hdistance : (w - v).length = v.distance w := distance_comm w v
  rw [hdistance] at hx hy hz
  rw [lerp_real, lerp_real]
  exact ⟨hcoordinate v.x hx, hcoordinate v.y hy, hcoordinate v.z hz⟩

end Arbor.Vector3

namespace Arbor.Projection

theorem ratio_mem (p first last : Vector3 ℝ) :
    0 ≤ (onto p first last).ratio ∧ (onto p first last).ratio ≤ 1 := by
  unfold onto
  dsimp only
  split
  · norm_num
  · rw [Scalar.clamp_unit]
    exact ⟨le_max_left _ _, max_le zero_le_one (min_le_left _ _)⟩

/-- The foot of a point divides the segment in its ratio. -/
theorem point_eq_lerp (p first last : Vector3 ℝ) :
    (onto p first last).point = first.lerp last (onto p first last).ratio := by
  rw [Vector3.lerp_real]
  rfl

end Arbor.Projection
