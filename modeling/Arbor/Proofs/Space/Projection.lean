import Mathlib.Order.ConditionallyCompleteLattice.Basic
import Mathlib.Order.Interval.Set.Basic
import Mathlib.Tactic.Linarith
import Mathlib.Tactic.Ring
import Arbor.Proofs.Space.Euclidean

/-! Projections onto segments in exact arithmetic. The foot of a point is the nearest point of the
segment, unless the segment is so short that it counts as its first point. -/

namespace Arbor

def Vector3.segment (first last : Vector3 ℝ) : Set (Vector3 ℝ) :=
  (fun t => first + (last - first).scale t) '' Set.Icc 0 1

noncomputable def Vector3.distanceToSegment (p first last : Vector3 ℝ) : ℝ :=
  sInf (p.distance '' segment first last)

namespace Projection

variable {p first last : Vector3 ℝ}

theorem point_eq (p first last : Vector3 ℝ) :
    (onto p first last).point = first + (last - first).scale (onto p first last).ratio := rfl

/-! ### Segments of some length -/

/-- How the squared distance from a point changes along a line: by its slope where one starts from,
and by the square of the way. -/
theorem lengthSq_sub_along (p first axis : Vector3 ℝ) (t s : ℝ) :
    (p - (first + axis.scale t)).lengthSq =
      (p - (first + axis.scale s)).lengthSq + (t - s) ^ 2 * axis.lengthSq -
        2 * ((t - s) * ((p - first).dot axis - s * axis.lengthSq)) := by
  simp only [Vector3.lengthSq, Vector3.dot, Vector3.scale, Vector3.x_sub, Vector3.y_sub,
    Vector3.z_sub, Vector3.x_add, Vector3.y_add, Vector3.z_add]
  ring

/-- The foot on the line through the segment, moved to the nearer end if it lies beyond it. -/
theorem ratio_eq_clamp (h : degenerateLengthSq ≤ (last - first).lengthSq) :
    (onto p first last).ratio =
      max 0 (min 1 ((p - first).dot (last - first) / (last - first).lengthSq)) := by
  have hratio : (onto p first last).ratio =
      Scalar.clamp ((p - first).dot (last - first) / (last - first).lengthSq) 0.0 1.0 :=
    if_neg h.not_gt
  rw [hratio, Scalar.clamp_unit]

/-- From the foot on, the slope of the squared distance leads down only towards what lies beyond the
segment. -/
theorem mul_slope_nonpos (h : degenerateLengthSq ≤ (last - first).lengthSq) {t : ℝ}
    (ht : t ∈ Set.Icc (0 : ℝ) 1) :
    (t - (onto p first last).ratio) * ((p - first).dot (last - first) -
      (onto p first last).ratio * (last - first).lengthSq) ≤ 0 := by
  obtain ⟨hlower, hupper⟩ := ht
  have hpos : 0 < (last - first).lengthSq := by
    refine lt_of_lt_of_le ?_ h
    norm_num [degenerateLengthSq]
  rw [ratio_eq_clamp h]
  generalize (p - first).dot (last - first) = dot
  generalize (last - first).lengthSq = square at hpos
  rcases le_total (dot / square) 0 with hbefore | hafter
  · -- The foot is the first point.
    have hdot : dot ≤ 0 := by
      rwa [div_le_iff₀ hpos, zero_mul] at hbefore
    rw [max_eq_left ((min_le_right _ _).trans hbefore), sub_zero, zero_mul, sub_zero]
    exact mul_nonpos_of_nonneg_of_nonpos hlower hdot
  · rcases le_total 1 (dot / square) with hbeyond | hwithin
    · -- The foot is the last point.
      have hdot : square ≤ dot := by
        rwa [le_div_iff₀ hpos, one_mul] at hbeyond
      rw [min_eq_left hbeyond, max_eq_right zero_le_one, one_mul]
      exact mul_nonpos_of_nonpos_of_nonneg (sub_nonpos.2 hupper) (sub_nonneg.2 hdot)
    · -- The foot lies between them, where the squared distance does not change.
      rw [min_eq_right hwithin, max_eq_right hafter, div_mul_cancel₀ _ hpos.ne', sub_self, mul_zero]

/-- No point of a segment is nearer than the foot. -/
theorem distance_point_le (h : degenerateLengthSq ≤ (last - first).lengthSq) {q : Vector3 ℝ}
    (hq : q ∈ Vector3.segment first last) :
    p.distance (onto p first last).point ≤ p.distance q := by
  obtain ⟨t, ht, rfl⟩ := hq
  -- From the foot on, the slope takes nothing off and the square of the way only adds.
  have hslope := mul_slope_nonpos (p := p) h ht
  have hway : 0 ≤ (t - (onto p first last).ratio) ^ 2 * (last - first).lengthSq := by
    rw [Vector3.lengthSq_eq]
    positivity
  rw [point_eq]
  apply Real.sqrt_le_sqrt
  rw [lengthSq_sub_along p first (last - first) t (onto p first last).ratio]
  linarith

/-! ### Segments of almost no length -/

theorem point_of_degenerate (h : (last - first).lengthSq < degenerateLengthSq) :
    (onto p first last).point = first := by
  have hratio : (onto p first last).ratio = 0.0 := if_pos h
  rw [point_eq, hratio, Scalar.zero_real]
  ext <;> simp [Vector3.scale]

/-- A segment that counts as its first point is shorter than a hundred thousandth. -/
theorem length_lt_of_degenerate {axis : Vector3 ℝ} (h : axis.lengthSq < degenerateLengthSq) :
    axis.length < 0.00001 := by
  rw [Vector3.length, Scalar.sqrt_real]
  refine (Real.sqrt_lt' (by norm_num)).2 (h.trans_eq ?_)
  norm_num [degenerateLengthSq]

/-- The first point is further away than the segment by no more than its length. -/
theorem distance_first_le (p first last : Vector3 ℝ) :
    p.distance first ≤ p.distanceToSegment first last + (last - first).length := by
  rw [← sub_le_iff_le_add]
  have hne : (p.distance '' Vector3.segment first last).Nonempty :=
    (Set.nonempty_Icc.2 zero_le_one).image _ |>.image _
  apply le_csInf hne
  rintro _ ⟨_, ⟨t, ⟨hlower, hupper⟩, rfl⟩, rfl⟩
  -- From any point of the segment it is no further back to the first than the whole length.
  have hway : (first + (last - first).scale t).distance first ≤ (last - first).length := by
    rw [Vector3.distance_comm, Vector3.distance_add, Vector3.length_scale, abs_of_nonneg hlower]
    exact mul_le_of_le_one_left (Vector3.length_nonneg _) hupper
  have htriangle := Vector3.distance_triangle p (first + (last - first).scale t) first
  linarith

/-- The foot of a point on a segment lies where its ratio says and is nearer than every other point
of the segment. Where the segment has almost no length, the foot is its first point, and further
away than the segment by less than a hundred thousandth. -/
theorem onto_isNearest (p first last : Vector3 ℝ) :
    (onto p first last).ratio ∈ Set.Icc (0 : ℝ) 1 ∧
      (onto p first last).point = first + (last - first).scale (onto p first last).ratio ∧
      (degenerateLengthSq ≤ (last - first).lengthSq →
        ∀ q ∈ Vector3.segment first last, p.distance (onto p first last).point ≤ p.distance q) ∧
      ((last - first).lengthSq < degenerateLengthSq → (onto p first last).point = first ∧
        p.distance (onto p first last).point < p.distanceToSegment first last + 0.00001) := by
  refine ⟨ratio_mem p first last, point_eq p first last, fun h q => distance_point_le h, ?_⟩
  intro h
  rw [point_of_degenerate h]
  have hlength := length_lt_of_degenerate h
  have hfirst := distance_first_le p first last
  exact ⟨rfl, hfirst.trans_lt ((add_lt_add_iff_left _).2 hlength)⟩

noncomputable def beside : Vector3 ℝ := ⟨3.0, 4.0, 0⟩

noncomputable def top : Vector3 ℝ := ⟨0, 10.0, 0⟩

/-- The end of a segment half as long as the shortest that counts as one. -/
noncomputable def speck : Vector3 ℝ := ⟨0.000005, 0, 0⟩

/-- A segment ten units long, and one that is too short to count. -/
theorem beside_isNearest :
    degenerateLengthSq ≤ (top - .zero).lengthSq ∧
      (∀ q ∈ Vector3.segment .zero top,
        beside.distance (onto beside .zero top).point ≤ beside.distance q) ∧
      (speck - .zero).lengthSq < degenerateLengthSq ∧
      (onto beside .zero speck).point = .zero ∧
      beside.distance (onto beside .zero speck).point <
        beside.distanceToSegment .zero speck + 0.00001 := by
  have htall : degenerateLengthSq ≤ (top - .zero).lengthSq := by
    norm_num [degenerateLengthSq, Vector3.lengthSq_eq, top, Vector3.zero]
  have hshort : (speck - .zero).lengthSq < degenerateLengthSq := by
    norm_num [degenerateLengthSq, Vector3.lengthSq_eq, speck, Vector3.zero]
  obtain ⟨-, -, hnearest, -⟩ := onto_isNearest beside .zero top
  obtain ⟨-, -, -, hfirst⟩ := onto_isNearest beside .zero speck
  exact ⟨htall, hnearest htall, hshort, hfirst hshort⟩

end Projection

end Arbor
