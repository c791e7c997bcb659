import Mathlib.Analysis.Convex.Segment
import Mathlib.Tactic.Linarith
import Arbor.Proofs.Camera.Approach

/-! The space that a flight keeps to, in exact arithmetic. It is wide enough for the orbit and high
enough for the arc of the approach, which rises above both of its ends. -/

namespace Arbor.Flight

/-- Whether a point is in the space around a nest that no flight leaves: along both horizontal axes
no further from the nest than the orbit goes, and in height between the orbit and the point above
the nest, or a fifth of the tree's height above the higher of the two. -/
structure InEnvelope (nest : Nest ℝ) (platform : Platform ℝ) (p : Vector3 ℝ) : Prop where
  x_le : |p.x - nest.position.x| ≤ 0.8 * platform.treeSpan
  z_le : |p.z - nest.position.z| ≤ 0.5 * platform.treeSpan
  le_y : min (nest.position.y + 0.45 * platform.treeHeight) (hoverPoint nest).y ≤ p.y
  y_le : p.y ≤ max (nest.position.y + 0.75 * platform.treeHeight) (hoverPoint nest).y +
    0.2 * platform.treeHeight

theorem abs_mul_le_of_abs_le_one {size x : ℝ} (hsize : 0 ≤ size) (hx : |x| ≤ 1) :
    |size * x| ≤ size := by
  rw [abs_mul, abs_of_nonneg hsize]
  exact mul_le_of_le_one_right hsize hx

section

variable (nest : Nest ℝ) {platform : Platform ℝ}

theorem inEnvelope_hoverPoint (hspan : 0 ≤ platform.treeSpan) (hheight : 0 ≤ platform.treeHeight) :
    InEnvelope nest platform (hoverPoint nest) := by
  have hmargin : 0 ≤ 0.2 * platform.treeHeight := mul_nonneg (by norm_num) hheight
  have hx : (hoverPoint nest).x - nest.position.x = 0 := sub_self _
  have hz : (hoverPoint nest).z - nest.position.z = 0 := sub_self _
  refine ⟨?_, ?_, min_le_right _ _, le_add_of_le_of_nonneg (le_max_right _ _) hmargin⟩
  · rw [hx, abs_zero]
    exact mul_nonneg (by norm_num) hspan
  · rw [hz, abs_zero]
    exact mul_nonneg (by norm_num) hspan

variable [Trig ℝ] [Trig.IsBounded]

/-- The orbit sways up and down by less than a sixth of the tree's height. -/
theorem y_orbitPoint_mem (hheight : 0 ≤ platform.treeHeight) (angle elapsed : ℝ) :
    nest.position.y + 0.45 * platform.treeHeight ≤ (orbitPoint nest platform angle elapsed).y ∧
      (orbitPoint nest platform angle elapsed).y ≤
        nest.position.y + 0.75 * platform.treeHeight := by
  have hsize : 0 ≤ 0.15 * platform.treeHeight := mul_nonneg (by norm_num) hheight
  have hsway := abs_le.1 (abs_mul_le_of_abs_le_one hsize
    (Trig.IsBounded.abs_sin_le_one (0.7 * elapsed)))
  rw [orbitPoint]
  constructor
  · linarith [hsway.1]
  · linarith [hsway.2]

/-- The orbit keeps its distance, as neither the sine nor the cosine exceeds one. -/
theorem inEnvelope_orbitPoint (hspan : 0 ≤ platform.treeSpan) (hheight : 0 ≤ platform.treeHeight)
    (angle elapsed : ℝ) : InEnvelope nest platform (orbitPoint nest platform angle elapsed) := by
  obtain ⟨hlow, hhigh⟩ := y_orbitPoint_mem nest hheight angle elapsed
  have hmargin : 0 ≤ 0.2 * platform.treeHeight := mul_nonneg (by norm_num) hheight
  refine ⟨?_, ?_, min_le_of_left_le hlow, ?_⟩
  · have hwide : 0 ≤ platform.treeSpan * 0.8 := mul_nonneg hspan (by norm_num)
    have hx := abs_mul_le_of_abs_le_one hwide (Trig.IsBounded.abs_cos_le_one angle)
    rw [orbitPoint, add_sub_cancel_left]
    linarith
  · have hwide : 0 ≤ platform.treeSpan * 0.5 := mul_nonneg hspan (by norm_num)
    have hz := abs_mul_le_of_abs_le_one hwide (Trig.IsBounded.abs_sin_le_one angle)
    rw [orbitPoint, add_sub_cancel_left]
    linarith
  · exact le_add_of_le_of_nonneg (le_max_of_le_left hhigh) hmargin

/-- The approach lies between its ends, but for the height that the arc adds. -/
theorem inEnvelope_approachPoint (flight : Flight ℝ) (hspan : 0 ≤ platform.treeSpan)
    (hheight : 0 ≤ platform.treeHeight) (since : ℝ) :
    InEnvelope nest platform (flight.approachPoint nest platform since) := by
  have horbit : InEnvelope nest platform (flight.orbitEnd nest platform) :=
    inEnvelope_orbitPoint nest hspan hheight _ _
  obtain ⟨hlow, hhigh⟩ : nest.position.y + 0.45 * platform.treeHeight ≤
      (flight.orbitEnd nest platform).y ∧ (flight.orbitEnd nest platform).y ≤
        nest.position.y + 0.75 * platform.treeHeight := y_orbitPoint_mem nest hheight _ _
  obtain ⟨hprogress, hprogress'⟩ := flight.progress_mem since
  have hrest := sub_nonneg.2 hprogress'
  -- Seen from above the camera only comes closer than it was at the end of the orbit.
  have hcloser : ∀ axis, axis ≠ Axis.y →
      |(flight.approachPoint nest platform since).coordinate axis - nest.position.coordinate axis| ≤
        |(flight.orbitEnd nest platform).coordinate axis - nest.position.coordinate axis| := by
    intro axis haxis
    rw [flight.coordinate_approachPoint_sub nest platform since axis haxis, abs_mul,
      abs_of_nonneg hrest]
    exact mul_le_of_le_one_left (abs_nonneg _) (sub_le_self 1 hprogress)
  refine ⟨(hcloser .x (by decide)).trans horbit.x_le, (hcloser .z (by decide)).trans horbit.z_le,
    ?_, ?_⟩
  · calc min (nest.position.y + 0.45 * platform.treeHeight) (hoverPoint nest).y
        ≤ min (flight.orbitEnd nest platform).y (hoverPoint nest).y := min_le_min_right _ hlow
      _ ≤ (1 - flight.progress since) * (flight.orbitEnd nest platform).y +
          flight.progress since * (hoverPoint nest).y :=
        Convex.min_le_combo _ _ hrest hprogress (sub_add_cancel _ _)
      _ = (flight.straightPoint nest platform since).y :=
        (coordinate_lerp (flight.orbitEnd nest platform) (hoverPoint nest) .y _).symm
      _ ≤ (flight.approachPoint nest platform since).y :=
        flight.straightPoint_le_approachPoint nest since hheight
  · calc (flight.approachPoint nest platform since).y
        ≤ (flight.controlPoint nest platform).y :=
        flight.approachPoint_le_controlPoint nest since hheight
      _ = max (flight.orbitEnd nest platform).y (hoverPoint nest).y +
          platform.treeHeight * 0.2 := flight.y_controlPoint nest platform
      _ ≤ max (nest.position.y + 0.75 * platform.treeHeight) (hoverPoint nest).y +
          platform.treeHeight * 0.2 := add_le_add_left (max_le_max_right _ hhigh) _
      _ = _ := by rw [mul_comm platform.treeHeight]

/-- No flight ever leaves the space around its nest: not in orbit, however fast and at whatever
time, not on the arc of the approach, and not afterwards. -/
theorem position_inEnvelope (flight : Flight ℝ) (hspan : 0 ≤ platform.treeSpan)
    (hheight : 0 ≤ platform.treeHeight) (t : ℝ) :
    InEnvelope nest platform (flight.pose nest platform t).position := by
  rcases lt_or_ge t flight.orbitDuration with horbit | hafter
  · rw [flight.position_of_lt_orbitDuration nest platform horbit]
    exact inEnvelope_orbitPoint nest hspan hheight _ _
  rcases lt_or_ge t flight.duration with happroach | harrived
  · rw [flight.position_of_lt_duration nest platform hafter happroach]
    exact inEnvelope_approachPoint nest flight hspan hheight _
  · rw [flight.position_of_duration_le nest platform harrived]
    exact inEnvelope_hoverPoint nest hspan hheight

end

/-- The standard flight before its beginning and half way through its approach, and a flight with no
pace at all. -/
theorem standard_position_inEnvelope :
    0 ≤ (Platform.fallback : Platform ℝ).treeSpan ∧
      0 ≤ (Platform.fallback : Platform ℝ).treeHeight ∧
      InEnvelope perch .fallback (pose standard perch .fallback (-7)).position ∧
      InEnvelope perch .fallback
        (pose standard perch .fallback (orbitDuration standard + 2)).position ∧
      InEnvelope perch .fallback (pose ⟨0, -1, 0⟩ perch .fallback 3).position := by
  have hspan : 0 ≤ (Platform.fallback : Platform ℝ).treeSpan := by norm_num [Platform.fallback]
  have hheight : 0 ≤ (Platform.fallback : Platform ℝ).treeHeight := by norm_num [Platform.fallback]
  have hposition := fun flight => position_inEnvelope perch flight hspan hheight
  exact ⟨hspan, hheight, hposition standard _, hposition standard _, hposition _ _⟩

end Arbor.Flight
