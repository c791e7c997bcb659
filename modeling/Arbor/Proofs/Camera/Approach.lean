import Mathlib.Algebra.Order.Ring.Pow
import Mathlib.Tactic.Linarith
import Mathlib.Tactic.Positivity
import Arbor.Proofs.Camera.Phases
import Arbor.Proofs.Space.Distance

/-! The approach of a flight in exact arithmetic. Seen from above it is a straight line, which the
camera follows without ever turning back; seen from the side it is an arc above that line. -/

namespace Arbor

noncomputable def Vector3.horizontalDistance (p q : Vector3 ℝ) : ℝ :=
  √((p.x - q.x) ^ 2 + (p.z - q.z) ^ 2)

namespace Flight

/-! ### Progress -/

/-- Both halves of the progress rise, and the second starts where the first ends. -/
theorem monotone_ease : Monotone (ease : ℝ → ℝ) := by
  have hcube : StrictMono fun t : ℝ => t ^ 3 := Odd.strictMono_pow (by decide)
  intro s t hle
  rw [ease_eq, ease_eq]
  split_ifs with hs ht ht
  · have hrest : (2 - 2 * t) ^ 3 ≤ (2 - 2 * s) ^ 3 := hcube.monotone (by linarith)
    linarith
  · linarith
  · -- The halves meet at one half, which neither of them crosses.
    have hlow : s ^ 3 ≤ (1 / 2) ^ 3 := hcube.monotone (not_le.1 hs).le
    have hhigh : (2 - 2 * t) ^ 3 ≤ 1 ^ 3 := hcube.monotone (by linarith)
    norm_num at hlow hhigh
    linarith
  · have hrest : s ^ 3 ≤ t ^ 3 := hcube.monotone hle
    linarith

variable (flight : Flight ℝ)

/-- The progress stays between nothing and all of the way, also before and behind the approach. -/
theorem progress_mem (since : ℝ) : 0 ≤ flight.progress since ∧ flight.progress since ≤ 1 := by
  rw [progress_eq]
  generalize hshare : max 0 (min 1 (since / flight.approach)) = share
  have hnonneg : 0 ≤ share := hshare ▸ le_max_left _ _
  have hle : share ≤ 1 := hshare ▸ max_le zero_le_one (min_le_left _ _)
  constructor
  · calc 0 = ease 0 := ease_zero.symm
      _ ≤ ease share := monotone_ease hnonneg
  · calc ease share ≤ ease 1 := monotone_ease hle
      _ = 1 := ease_one

/-- An approach that takes time never goes back. -/
theorem monotone_progress (h : 0 < flight.approach) : Monotone flight.progress := by
  intro s t hle
  rw [progress_eq, progress_eq]
  apply monotone_ease
  gcongr

/-! ### Arcs -/

section Arcs

variable (first control last : Vector3 ℝ) (axis : Axis)

theorem coordinate_lerp (t : ℝ) : (first.lerp last t).coordinate axis =
    (1 - t) * first.coordinate axis + t * last.coordinate axis := by
  cases axis <;> simp only [Vector3.coordinate, Vector3.lerp, Vector3.scale, Vector3.x_add,
    Vector3.y_add, Vector3.z_add, Scalar.one_real] <;> ring

/-- How far an arc strays from the straight line, by how far its control point lies off the middle.
-/
theorem coordinate_arc (t : ℝ) : (arc first control last t).coordinate axis =
    (first.lerp last t).coordinate axis + 2 * (1 - t) * t *
      (control.coordinate axis - (first.coordinate axis + last.coordinate axis) / 2) := by
  rw [coordinate_lerp]
  cases axis <;> simp only [arc, Vector3.coordinate, Vector3.scale, Vector3.x_add, Vector3.y_add,
    Vector3.z_add, Scalar.one_real, Scalar.two_real] <;> ring

variable {first control last axis}

/-- Where the control point is half way along an axis, the arc is the straight line along it. -/
theorem coordinate_arc_of_eq
    (h : control.coordinate axis = (first.coordinate axis + last.coordinate axis) / 2) (t : ℝ) :
    (arc first control last t).coordinate axis = (first.lerp last t).coordinate axis := by
  rw [coordinate_arc, h, sub_self, mul_zero, add_zero]

/-- A control point above the middle bends the arc upwards. -/
theorem lerp_le_arc
    (h : (first.coordinate axis + last.coordinate axis) / 2 ≤ control.coordinate axis)
    {t : ℝ} (ht : 0 ≤ t ∧ t ≤ 1) :
    (first.lerp last t).coordinate axis ≤ (arc first control last t).coordinate axis := by
  have hweight : 0 ≤ 2 * (1 - t) * t :=
    mul_nonneg (mul_nonneg zero_le_two (sub_nonneg.2 ht.2)) ht.1
  rw [coordinate_arc]
  exact le_add_of_nonneg_right (mul_nonneg hweight (sub_nonneg.2 h))

/-- An arc rises no higher than the highest of the three points it is made of. -/
theorem arc_le_control (hfirst : first.coordinate axis ≤ control.coordinate axis)
    (hlast : last.coordinate axis ≤ control.coordinate axis) (t : ℝ) :
    (arc first control last t).coordinate axis ≤ control.coordinate axis := by
  have hfirst' := mul_nonneg (sq_nonneg (1 - t)) (sub_nonneg.2 hfirst)
  have hlast' := mul_nonneg (sq_nonneg t) (sub_nonneg.2 hlast)
  rw [coordinate_arc, coordinate_lerp]
  linarith

end Arcs

/-! ### The way in -/

section

variable [Trig ℝ] (nest : Nest ℝ) (platform : Platform ℝ) (since : ℝ)

/-- The point that is as far on the straight line from the end of the orbit to the end of the flight
as the approach has progressed. -/
noncomputable def straightPoint : Vector3 ℝ :=
  (flight.orbitEnd nest platform).lerp (hoverPoint nest) (flight.progress since)

noncomputable def controlPoint : Vector3 ℝ :=
  control (flight.orbitEnd nest platform) (hoverPoint nest) platform

/-- Seen from above, the approach is on the straight line. -/
theorem coordinate_approachPoint (axis : Axis) (h : axis ≠ .y) :
    (flight.approachPoint nest platform since).coordinate axis =
      (flight.straightPoint nest platform since).coordinate axis := by
  have hmiddle : (flight.controlPoint nest platform).coordinate axis =
      ((flight.orbitEnd nest platform).coordinate axis + (hoverPoint nest).coordinate axis) /
        2 := by
    cases axis with
    | y => exact absurd rfl h
    | _ =>
      norm_num [controlPoint, control, Vector3.coordinate]
      ring
  exact coordinate_arc_of_eq hmiddle _

/-- The flight ends above the nest, so both horizontal distances from it shrink alike. -/
theorem coordinate_approachPoint_sub (axis : Axis) (h : axis ≠ .y) :
    (flight.approachPoint nest platform since).coordinate axis - nest.position.coordinate axis =
      (1 - flight.progress since) * ((flight.orbitEnd nest platform).coordinate axis -
        nest.position.coordinate axis) := by
  have hhover : (hoverPoint nest).coordinate axis = nest.position.coordinate axis := by
    cases axis with
    | y => exact absurd rfl h
    | _ => rfl
  rw [coordinate_approachPoint flight nest platform since axis h, straightPoint, coordinate_lerp,
    hhover]
  ring

/-- The control point is a fifth of the tree's height above the higher of the two ends. -/
theorem y_controlPoint : (flight.controlPoint nest platform).y =
    max (flight.orbitEnd nest platform).y (hoverPoint nest).y + platform.treeHeight * 0.2 := by
  rw [controlPoint, control, Scalar.maxNum_real]

/-- Seen from above, the approach is straight and the distance is used up as the progress says. -/
theorem horizontalDistance_approachPoint :
    (flight.approachPoint nest platform since).horizontalDistance nest.position =
      (1 - flight.progress since) *
        (flight.orbitEnd nest platform).horizontalDistance nest.position := by
  have hx := flight.coordinate_approachPoint_sub nest platform since .x (by decide)
  have hz := flight.coordinate_approachPoint_sub nest platform since .z (by decide)
  have hrest : 0 ≤ 1 - flight.progress since := sub_nonneg.2 (flight.progress_mem since).2
  simp only [Vector3.coordinate] at hx hz
  -- The squares share a factor whose root is the factor itself, as it is not negative.
  rw [Vector3.horizontalDistance, hx, hz, mul_pow, mul_pow, ← mul_add,
    Real.sqrt_mul (sq_nonneg _), Real.sqrt_sq hrest, Vector3.horizontalDistance]

variable {platform}

/-- No end of the approach is above its control point. -/
theorem y_le_controlPoint (h : 0 ≤ platform.treeHeight) :
    (flight.orbitEnd nest platform).y ≤ (flight.controlPoint nest platform).y ∧
      (hoverPoint nest).y ≤ (flight.controlPoint nest platform).y := by
  have hrise : 0 ≤ platform.treeHeight * 0.2 := mul_nonneg h (by norm_num)
  rw [y_controlPoint]
  exact ⟨le_add_of_le_of_nonneg (le_max_left _ _) hrise,
    le_add_of_le_of_nonneg (le_max_right _ _) hrise⟩

/-- The approach never falls below the straight line to its end. -/
theorem straightPoint_le_approachPoint (h : 0 ≤ platform.treeHeight) :
    (flight.straightPoint nest platform since).y ≤ (flight.approachPoint nest platform since).y := by
  obtain ⟨hfirst, hlast⟩ := flight.y_le_controlPoint nest h
  have hmiddle : ((flight.orbitEnd nest platform).coordinate .y + (hoverPoint nest).coordinate .y) /
      2 ≤ (flight.controlPoint nest platform).coordinate .y := by
    simp only [Vector3.coordinate]
    linarith
  exact lerp_le_arc hmiddle (flight.progress_mem since)

/-- The approach never rises above its control point. -/
theorem approachPoint_le_controlPoint (h : 0 ≤ platform.treeHeight) :
    (flight.approachPoint nest platform since).y ≤ (flight.controlPoint nest platform).y := by
  obtain ⟨hfirst, hlast⟩ := flight.y_le_controlPoint nest h
  have hbelow : ((flight.orbitEnd nest platform).coordinate .y ≤
      (flight.controlPoint nest platform).coordinate .y) := hfirst
  exact arc_le_control hbelow hlast _

/-- During the approach the camera makes progress, from zero up to one, and never loses any. Seen
from above it is exactly as far on the straight line from the end of the orbit to the end of the
flight, and so never moves away from the nest; it flies no lower than that line and no higher than
the control point of its arc. -/
theorem position_closes_in (hheight : 0 ≤ platform.treeHeight) (happroach : 0 < flight.approach) :
    (Monotone fun t => flight.progress (t - flight.orbitDuration)) ∧
    (∀ t, 0 ≤ flight.progress (t - flight.orbitDuration) ∧
      flight.progress (t - flight.orbitDuration) ≤ 1) ∧
    (∀ t, (flight.pose nest platform t).phase = .approach →
      (flight.pose nest platform t).position.x =
        (flight.straightPoint nest platform (t - flight.orbitDuration)).x ∧
      (flight.pose nest platform t).position.z =
        (flight.straightPoint nest platform (t - flight.orbitDuration)).z ∧
      (flight.straightPoint nest platform (t - flight.orbitDuration)).y ≤
        (flight.pose nest platform t).position.y ∧
      (flight.pose nest platform t).position.y ≤ (flight.controlPoint nest platform).y) ∧
    AntitoneOn (fun t => (flight.pose nest platform t).position.horizontalDistance nest.position)
      {t | (flight.pose nest platform t).phase = .approach} := by
  have hprogress : Monotone fun t => flight.progress (t - flight.orbitDuration) :=
    fun s t hle => flight.monotone_progress happroach (sub_le_sub_right hle _)
  have hposition : ∀ t, (flight.pose nest platform t).phase = .approach →
      (flight.pose nest platform t).position =
        flight.approachPoint nest platform (t - flight.orbitDuration) := by
    intro t ht
    obtain ⟨hafter, hbefore⟩ := flight.phase_eq_approach_iff.1 ht
    exact flight.position_of_lt_duration nest platform hafter hbefore
  refine ⟨hprogress, fun t => flight.progress_mem _, ?_, ?_⟩
  · intro t ht
    rw [hposition t ht]
    exact ⟨flight.coordinate_approachPoint nest platform _ .x (by decide),
      flight.coordinate_approachPoint nest platform _ .z (by decide),
      flight.straightPoint_le_approachPoint nest _ hheight,
      flight.approachPoint_le_controlPoint nest _ hheight⟩
  · -- What remains of the distance is what remains of the progress.
    intro s hs t ht hle
    have hrest := sub_le_sub_left (hprogress hle) 1
    simp only [hposition s hs, hposition t ht, horizontalDistance_approachPoint]
    exact mul_le_mul_of_nonneg_right hrest (Real.sqrt_nonneg _)

end

/-- The standard flight half way through its approach. -/
theorem standard_position_closes_in :
    0 ≤ (Platform.fallback : Platform ℝ).treeHeight ∧ 0 < (standard : Flight ℝ).approach ∧
      (pose standard perch .fallback (orbitDuration standard + 2)).phase = .approach ∧
      (pose standard perch .fallback (orbitDuration standard + 2)).position.x =
        (straightPoint standard perch .fallback 2).x ∧
      (straightPoint standard perch .fallback 2).y ≤
        (pose standard perch .fallback (orbitDuration standard + 2)).position.y ∧
      (pose standard perch .fallback (orbitDuration standard + 2)).position.horizontalDistance
          perch.position ≤
        (pose standard perch .fallback (orbitDuration standard)).position.horizontalDistance
          perch.position := by
  have hheight : 0 ≤ (Platform.fallback : Platform ℝ).treeHeight := by norm_num [Platform.fallback]
  have happroach : (standard : Flight ℝ).approach = 4 := by norm_num [standard]
  have hpos : 0 < (standard : Flight ℝ).approach := by
    rw [happroach]
    norm_num
  have hduration := duration_of_approach_pos standard hpos
  rw [happroach] at hduration
  have hbegin : (pose standard perch .fallback (orbitDuration standard)).phase = .approach :=
    (phase_eq_approach_iff standard).2 ⟨le_rfl, by linarith⟩
  have hhalf : (pose standard perch .fallback (orbitDuration standard + 2)).phase = .approach :=
    (phase_eq_approach_iff standard).2 ⟨by linarith, by linarith⟩
  obtain ⟨-, -, hpath, hcloser⟩ := position_closes_in standard perch hheight hpos
  obtain ⟨hx, -, hlow, -⟩ := hpath _ hhalf
  rw [add_sub_cancel_left] at hx hlow
  exact ⟨hheight, hpos, hhalf, hx, hlow, hcloser hbegin hhalf (by linarith)⟩

end Flight

end Arbor
