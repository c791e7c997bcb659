import Mathlib.Algebra.Order.Field.Basic
import Mathlib.Tactic.Linarith
import Arbor.Landmark.Platform
import Arbor.Proofs.Scalar.Real

/-! Trees that differ in size or in place alone, in exact arithmetic. The sizes around them differ
in the same way, so that a scene looks the same around a small tree and around a large one. -/

namespace Arbor

namespace Platform

noncomputable def enlarged (factor : ℝ) (platform : Platform ℝ) : Platform ℝ where
  origin := platform.origin.scale factor
  trunkRadius := platform.trunkRadius * factor
  trunkLength := platform.trunkLength * factor
  treeHeight := platform.treeHeight * factor
  treeSpan := platform.treeSpan * factor

noncomputable def moved (offset : Vector3 ℝ) (platform : Platform ℝ) : Platform ℝ :=
  { platform with origin := platform.origin + offset }

end Platform

namespace Dimensions

/-- Sizes that are so many times as large: lengths and speeds are multiplied once, an area twice,
and a ratio not at all. -/
noncomputable def enlarged (factor : ℝ) (sizes : Dimensions ℝ) : Dimensions ℝ where
  platformRadius := sizes.platformRadius * factor
  platformThickness := sizes.platformThickness * factor
  wellRadius := sizes.wellRadius * factor
  wellHeight := sizes.wellHeight * factor
  rimTubeRadius := sizes.rimTubeRadius * factor
  innerRingInner := sizes.innerRingInner * factor
  innerRingOuter := sizes.innerRingOuter * factor
  outerRingInner := sizes.outerRingInner * factor
  outerRingOuter := sizes.outerRingOuter * factor
  routeLength := sizes.routeLength * factor
  routeBaseRadius := sizes.routeBaseRadius * factor
  routeTipRadius := sizes.routeTipRadius * factor
  playerHeight := sizes.playerHeight * factor
  moveSpeed := sizes.moveSpeed * factor
  strafeSpeed := sizes.strafeSpeed * factor
  jumpStrength := sizes.jumpStrength * factor
  gravityStrength := sizes.gravityStrength * factor
  lookAheadDistance := sizes.lookAheadDistance * factor
  surfaceDamping := sizes.surfaceDamping
  overviewPosition := sizes.overviewPosition.scale factor
  overviewTarget := sizes.overviewTarget.scale factor
  spawnPoint := sizes.spawnPoint.scale factor
  overviewMinDistance := sizes.overviewMinDistance * factor
  overviewMaxDistance := sizes.overviewMaxDistance * factor
  platformRadiusSq := sizes.platformRadiusSq * factor ^ 2
  standingHeight := sizes.standingHeight * factor

/-- The same sizes in another place: points move, and so do heights, which are measured from the
ground of the scene. -/
noncomputable def moved (offset : Vector3 ℝ) (sizes : Dimensions ℝ) : Dimensions ℝ :=
  { sizes with
    overviewPosition := sizes.overviewPosition + offset
    overviewTarget := sizes.overviewTarget + offset
    spawnPoint := sizes.spawnPoint + offset
    standingHeight := sizes.standingHeight + offset.y }

end Dimensions

namespace Platform

variable (platform : Platform ℝ)

/-- The scale is a ratio of lengths, so it grows as they do. -/
theorem scale_enlarged (factor : ℝ) : (platform.enlarged factor).scale = platform.scale * factor := by
  rw [scale, scale, enlarged, div_mul_eq_mul_div]

theorem extent_enlarged {factor : ℝ} (h : 0 ≤ factor) :
    (platform.enlarged factor).extent = platform.extent * factor := by
  simp only [extent, enlarged, Scalar.maxNum_real]
  rw [max_mul_of_nonneg _ _ h, max_mul_of_nonneg _ _ h, mul_right_comm _ factor,
    mul_right_comm _ factor]

/-- All sizes of a tree's surroundings grow with the tree. -/
theorem dimensions_enlarged {factor : ℝ} (h : 0 ≤ factor) :
    (platform.enlarged factor).dimensions = platform.dimensions.enlarged factor := by
  rw [dimensions, scale_enlarged, extent_enlarged platform h]
  simp only [dimensions, enlarged, Dimensions.enlarged, Vector3.scale, Scalar.ofScientific_real,
    Dimensions.mk.injEq, Vector3.mk.injEq, true_and, and_true]
  constructorm* _ ∧ _ <;> ring

/-- All that stands around a tree moves with it. -/
theorem dimensions_moved (offset : Vector3 ℝ) :
    (platform.moved offset).dimensions = platform.dimensions.moved offset := by
  simp only [dimensions, moved, scale, extent, Dimensions.moved, Scalar.ofScientific_real,
    Dimensions.mk.injEq, Vector3.ext_iff, Vector3.x_add, Vector3.y_add, Vector3.z_add, true_and,
    and_true]
  constructorm* _ ∧ _ <;> ring

/-- The grooves of the two rings are apart from each other and inside of the rim. -/
theorem rings_apart (h : 0 < platform.trunkRadius) :
    platform.dimensions.innerRingInner < platform.dimensions.innerRingOuter ∧
      platform.dimensions.innerRingOuter < platform.dimensions.outerRingInner ∧
      platform.dimensions.outerRingInner < platform.dimensions.outerRingOuter ∧
      platform.dimensions.outerRingOuter < platform.dimensions.platformRadius := by
  simp only [dimensions, Scalar.ofScientific_real]
  refine ⟨?_, ?_, ?_, ?_⟩ <;> linarith

/-- All sizes around a tree are in proportion to it: they are so many times as large around a tree
that is so many times as large, and around a tree that stands elsewhere only the points and the
heights are others, by as much as the tree has moved. -/
theorem dimensions_inProportion :
    (∀ factor, 0 ≤ factor →
      (platform.enlarged factor).dimensions = platform.dimensions.enlarged factor) ∧
    (∀ offset, (platform.moved offset).dimensions = platform.dimensions.moved offset) ∧
    (0 < platform.trunkRadius →
      platform.dimensions.innerRingInner < platform.dimensions.innerRingOuter ∧
        platform.dimensions.innerRingOuter < platform.dimensions.outerRingInner ∧
        platform.dimensions.outerRingInner < platform.dimensions.outerRingOuter ∧
        platform.dimensions.outerRingOuter < platform.dimensions.platformRadius) :=
  ⟨fun _ => platform.dimensions_enlarged, platform.dimensions_moved, platform.rings_apart⟩

/-- The sizes around the tree that stands in for one that is not there. -/
theorem fallback_inProportion :
    (0 : ℝ) ≤ 3 ∧ 0 < (fallback : Platform ℝ).trunkRadius ∧
      (enlarged 3 fallback).dimensions = (fallback.dimensions : Dimensions ℝ).enlarged 3 ∧
      (enlarged 3 fallback).dimensions.platformRadiusSq = 81 ∧
      (moved ⟨1, 2, 3⟩ fallback).dimensions.standingHeight = 7 / 2 ∧
      (fallback : Platform ℝ).dimensions.outerRingOuter < 3 := by
  have htrunk : 0 < (fallback : Platform ℝ).trunkRadius := by norm_num [fallback, referenceRadius]
  obtain ⟨henlarged, hmoved, hrings⟩ := dimensions_inProportion (fallback : Platform ℝ)
  have hlarge := henlarged 3 (by norm_num)
  have hrim : (fallback : Platform ℝ).dimensions.platformRadius = 3 := by
    norm_num [fallback, dimensions, referenceRadius]
  refine ⟨by norm_num, htrunk, hlarge, ?_, ?_, ?_⟩
  · rw [hlarge]
    norm_num [Dimensions.enlarged, fallback, dimensions, referenceRadius]
  · rw [hmoved]
    norm_num [Dimensions.moved, fallback, dimensions, referenceRadius, scale, Vector3.zero]
  · rw [← hrim]
    exact (hrings htrunk).2.2.2

end Platform

end Arbor
