import Mathlib.Data.List.Pairwise
import Mathlib.Order.Interval.Set.UnorderedInterval
import Mathlib.Tactic.Linarith
import Arbor.Landmark.Bowl
import Arbor.Proofs.Scalar.Real

/-! The shape of a bowl, in exact arithmetic. Its profile is a parabola with the vertex in the
center, so that whether it rises is settled by whether the rim is above the center, however high
that is. -/

namespace Arbor.Bowl

noncomputable def height (depth rim : ℝ) (segments i : ℕ) : ℝ :=
  (depth + rim) * ((i : ℝ) / (segments : ℝ)) ^ 2 - depth

section

variable (radius depth rim : ℝ) {segments : ℕ}

/-- The height is a parabola in the distance from the axis. -/
theorem point_eq (t : ℝ) :
    point radius depth rim t = (t * radius, (depth + rim) * t ^ 2 - depth) := by
  rw [point, Scalar.one_real, Prod.mk.injEq]
  constructor
  · rfl
  · ring

/-- With segments to draw, the points of a profile are evenly spaced from the center to the rim. -/
theorem profile_eq (h : 0 < segments) :
    profile radius depth rim segments = (List.range (segments + 1)).map fun (i : ℕ) =>
      ((i : ℝ) / (segments : ℝ) * radius, height depth rim segments i) := by
  rw [profile, if_neg h.ne']
  apply List.map_congr_left
  intro i _
  exact point_eq radius depth rim _

theorem length_profile (h : 0 < segments) :
    (profile radius depth rim segments).length = segments + 1 := by
  rw [profile_eq radius depth rim h, List.length_map, List.length_range]

theorem profile_getElem? (h : 0 < segments) {i : ℕ} (hi : i ≤ segments) :
    (profile radius depth rim segments)[i]? =
      some ((i : ℝ) / (segments : ℝ) * radius, height depth rim segments i) := by
  rw [profile_eq radius depth rim h, List.getElem?_map, List.getElem?_range (Nat.lt_succ_of_le hi),
    Option.map_some]

theorem height_zero : height depth rim segments 0 = -depth := by
  rw [height, Nat.cast_zero, zero_div]
  ring

theorem height_last (h : 0 < segments) : height depth rim segments segments = rim := by
  have hsegments : (segments : ℝ) ≠ 0 := Nat.cast_ne_zero.2 h.ne'
  rw [height, div_self hsegments]
  ring

theorem head?_profile (h : 0 < segments) :
    (profile radius depth rim segments).head? = some (0, -depth) := by
  rw [List.head?_eq_getElem?, profile_getElem? radius depth rim h (Nat.zero_le segments),
    height_zero, Nat.cast_zero, zero_div, zero_mul]

theorem getLast?_profile (h : 0 < segments) :
    (profile radius depth rim segments).getLast? = some (radius, rim) := by
  have hsegments : (segments : ℝ) ≠ 0 := Nat.cast_ne_zero.2 h.ne'
  rw [List.getLast?_eq_getElem?, length_profile radius depth rim h, Nat.add_sub_cancel,
    profile_getElem? radius depth rim h le_rfl, height_last depth rim h, div_self hsegments, one_mul]

theorem ratio_mem (h : 0 < segments) {i : ℕ} (hi : i ≤ segments) :
    0 ≤ (i : ℝ) / (segments : ℝ) ∧ (i : ℝ) / (segments : ℝ) ≤ 1 := by
  have hsegments : (0 : ℝ) < segments := Nat.cast_pos.2 h
  refine ⟨by positivity, ?_⟩
  rw [div_le_one hsegments]
  exact_mod_cast hi

/-! ### Rise and fall -/

/-- Between two points the profile rises by a positive share of what the rim is above the center. -/
theorem exists_height_sub_eq (h : 0 < segments) {i j : ℕ} (hij : i < j) :
    ∃ share : ℝ, 0 < share ∧
      height depth rim segments j - height depth rim segments i = (depth + rim) * share := by
  have hsegments : (0 : ℝ) < segments := Nat.cast_pos.2 h
  have hratio : (i : ℝ) / segments < (j : ℝ) / segments := by
    apply div_lt_div_of_pos_right _ hsegments
    exact_mod_cast hij
  have hsquare : ((i : ℝ) / segments) ^ 2 < ((j : ℝ) / segments) ^ 2 := by
    apply pow_lt_pow_left₀ hratio _ two_ne_zero
    positivity
  refine ⟨((j : ℝ) / segments) ^ 2 - ((i : ℝ) / segments) ^ 2, sub_pos.2 hsquare, ?_⟩
  rw [height, height]
  ring

/-- Whether a profile falls anywhere depends only on whether its rim is below its bottom. -/
theorem height_le_height_iff (h : 0 < segments) {i j : ℕ} (hij : i < j) :
    height depth rim segments i ≤ height depth rim segments j ↔ 0 ≤ depth + rim := by
  obtain ⟨share, hshare, hsub⟩ := exists_height_sub_eq depth rim h hij
  rw [← sub_nonneg, hsub]
  exact mul_nonneg_iff_of_pos_right hshare

/-- Whether a profile rises everywhere depends only on whether its rim is above its bottom. -/
theorem height_lt_height_iff (h : 0 < segments) {i j : ℕ} (hij : i < j) :
    height depth rim segments i < height depth rim segments j ↔ 0 < depth + rim := by
  obtain ⟨share, hshare, hsub⟩ := exists_height_sub_eq depth rim h hij
  rw [← sub_pos, hsub]
  exact mul_pos_iff_of_pos_right hshare

/-- A comparison that comes out the same for any two points holds throughout the profile just if
it comes out true. -/
theorem pairwise_heights_iff (h : 0 < segments) {p : ℝ → ℝ → Prop} {rises : Prop}
    (hp : ∀ {i j : ℕ}, i < j →
      (p (height depth rim segments i) (height depth rim segments j) ↔ rises)) :
    ((profile radius depth rim segments).map (·.2)).Pairwise p ↔ rises := by
  rw [profile_eq radius depth rim h, List.map_map, List.pairwise_map]
  constructor
  · intro hall
    -- There are at least two points to compare.
    have hfirst := List.pairwise_iff_getElem.1 hall 0 1 (by simp) (by simpa using h) zero_lt_one
    rw [List.getElem_range, List.getElem_range] at hfirst
    exact (hp zero_lt_one).1 hfirst
  · intro hrises
    exact List.pairwise_lt_range.imp fun hij => (hp hij).2 hrises

/-- No point is outside of the heights of bottom and rim, whichever of these is the higher. -/
theorem height_mem_uIcc (h : 0 < segments) {i : ℕ} (hi : i ≤ segments) :
    height depth rim segments i ∈ Set.uIcc (-depth) rim := by
  obtain ⟨hnonneg, hle⟩ := ratio_mem h hi
  have hsquare : 0 ≤ ((i : ℝ) / segments) ^ 2 := pow_nonneg hnonneg 2
  have hsquare' : ((i : ℝ) / segments) ^ 2 ≤ 1 := pow_le_one₀ hnonneg hle
  rw [Set.mem_uIcc, height]
  rcases le_total 0 (depth + rim) with hrises | hfalls
  · have hlower := mul_nonneg hrises hsquare
    have hupper := mul_le_of_le_one_right hrises hsquare'
    exact Or.inl ⟨by linarith, by linarith⟩
  · have hlower := mul_nonpos_of_nonpos_of_nonneg hfalls hsquare
    have hupper := le_mul_of_le_one_right hfalls hsquare'
    exact Or.inr ⟨by linarith, by linarith⟩

/-- A profile goes from the center to the rim through points that are evenly spaced along the radius
and stand on one parabola. Along all of it the height never falls just if the rim is no lower than
the center, and always rises just if the rim is higher; wherever the rim is, no point is above both
or below both. -/
theorem profile_isParabola (h : 0 < segments) :
    (profile radius depth rim segments).length = segments + 1 ∧
    (profile radius depth rim segments).head? = some (0, -depth) ∧
    (profile radius depth rim segments).getLast? = some (radius, rim) ∧
    (∀ i ≤ segments, (profile radius depth rim segments)[i]? =
      some ((i : ℝ) / (segments : ℝ) * radius,
        (depth + rim) * ((i : ℝ) / (segments : ℝ)) ^ 2 - depth)) ∧
    (((profile radius depth rim segments).map (·.2)).Pairwise (· ≤ ·) ↔ 0 ≤ depth + rim) ∧
    (((profile radius depth rim segments).map (·.2)).Pairwise (· < ·) ↔ 0 < depth + rim) ∧
    (∀ point ∈ profile radius depth rim segments, point.2 ∈ Set.uIcc (-depth) rim) := by
  refine ⟨length_profile radius depth rim h, head?_profile radius depth rim h,
    getLast?_profile radius depth rim h, fun i hi => profile_getElem? radius depth rim h hi,
    ?_, ?_, ?_⟩
  · exact pairwise_heights_iff radius depth rim h fun hij => height_le_height_iff depth rim h hij
  · exact pairwise_heights_iff radius depth rim h fun hij => height_lt_height_iff depth rim h hij
  · rw [profile_eq radius depth rim h, List.forall_mem_map]
    intro i hi
    exact height_mem_uIcc depth rim h (Nat.le_of_lt_succ (List.mem_range.1 hi))

end

/-- A rim below the center makes a dome of the bowl. -/
theorem dome_isParabola :
    0 < 8 ∧ 4 ≤ 8 ∧ (profile (1 : ℝ) 0.5 (-2) 8).length = 9 ∧
      (profile (1 : ℝ) 0.5 (-2) 8).head? = some (0, -0.5) ∧
      (profile (1 : ℝ) 0.5 (-2) 8)[4]? = some ((1 / 2 : ℝ), (-7 / 8 : ℝ)) ∧
      (profile (1 : ℝ) 0.5 (-2) 8).getLast? = some (1, -2) ∧
      ¬((profile (1 : ℝ) 0.5 (-2) 8).map (·.2)).Pairwise (· ≤ ·) := by
  obtain ⟨hlength, hcenter, hrim, hpoints, hrises, -, -⟩ :=
    profile_isParabola (1 : ℝ) 0.5 (-2) (by decide : 0 < 8)
  refine ⟨by decide, by decide, hlength, hcenter, ?_, hrim, ?_⟩
  · rw [hpoints 4 (by decide)]
    norm_num
  · rw [hrises]
    norm_num

end Arbor.Bowl
