import Mathlib.Tactic.Linarith
import Mathlib.Topology.Order.OrderClosed
import Arbor.Camera.Flight
import Arbor.Proofs.Scalar.Trig
import Arbor.Proofs.Space.Bounds

/-! The phases of a flight in exact arithmetic. They follow one another on the time line, whatever
the pace of the flight, and the path has no jump where one gives way to the next. -/

namespace Arbor.Flight

/-! ### The time line -/

def Phase.stage : Phase → Nat
  | orbit => 0
  | approach => 1
  | arrived => 2

variable (flight : Flight ℝ) {t : ℝ}

/-- An approach of less than no time takes none. -/
theorem duration_eq : flight.duration = flight.orbitDuration + max flight.approach 0 := by
  rw [duration, Scalar.maxNum_real, Scalar.zero_real]

theorem duration_of_approach_pos (h : 0 < flight.approach) :
    flight.duration = flight.orbitDuration + flight.approach := by
  rw [duration_eq, max_eq_left h.le]

theorem orbitDuration_le_duration : flight.orbitDuration ≤ flight.duration := by
  have happroach := le_max_right flight.approach 0
  rw [duration_eq]
  linarith

/-- After the orbit, the approach has taken its time just when the whole flight has. -/
theorem approach_le_iff (h : flight.orbitDuration ≤ t) :
    flight.approach ≤ t - flight.orbitDuration ↔ flight.duration ≤ t := by
  -- An approach of negative length counts as none, and since the orbit some time has passed.
  have hsince : 0 ≤ t - flight.orbitDuration := sub_nonneg.2 h
  calc flight.approach ≤ t - flight.orbitDuration
      ↔ max flight.approach 0 ≤ t - flight.orbitDuration := by rw [max_le_iff, and_iff_left hsince]
    _ ↔ flight.orbitDuration + max flight.approach 0 ≤ t := le_sub_iff_add_le'
    _ ↔ flight.duration ≤ t := by rw [duration_eq]

/-- The two durations cut the time line into the phases. -/
theorem phase_eq (t : ℝ) : flight.phase t =
    if t < flight.orbitDuration then .orbit
    else if flight.duration ≤ t then .arrived else .approach := by
  rw [phase]
  split
  case isTrue => rfl
  case isFalse h =>
    have hiff := flight.approach_le_iff (not_lt.1 h)
    simp only [Scalar.isNaN_real, Bool.false_eq_true, or_false, hiff]

theorem phase_eq_orbit_iff : flight.phase t = .orbit ↔ t < flight.orbitDuration := by
  rw [phase_eq]
  split_ifs with horbit harrived
  · exact iff_of_true rfl horbit
  · exact iff_of_false nofun horbit
  · exact iff_of_false nofun horbit

theorem phase_eq_arrived_iff : flight.phase t = .arrived ↔ flight.duration ≤ t := by
  rw [phase_eq]
  split_ifs with horbit harrived
  · exact iff_of_false nofun fun h =>
      absurd (flight.orbitDuration_le_duration.trans h) (not_le.2 horbit)
  · exact iff_of_true rfl harrived
  · exact iff_of_false nofun harrived

/-- Between the two a flight is on its approach, which may be at no time. -/
theorem phase_eq_approach_iff :
    flight.phase t = .approach ↔ flight.orbitDuration ≤ t ∧ t < flight.duration := by
  rw [phase_eq]
  split_ifs with horbit harrived
  · exact iff_of_false nofun fun h => absurd h.1 (not_le.2 horbit)
  · exact iff_of_false nofun fun h => absurd h.2 (not_lt.2 harrived)
  · exact iff_of_true rfl ⟨not_lt.1 horbit, not_le.1 harrived⟩

/-- A flight never goes back to an earlier phase. -/
theorem monotone_stage : Monotone fun t => (flight.phase t).stage := by
  intro t t' hle
  change (flight.phase t).stage ≤ (flight.phase t').stage
  cases hphase : flight.phase t with
  | orbit => exact Nat.zero_le _
  | approach =>
    cases hphase' : flight.phase t' with
    | orbit =>
      have horbit := flight.phase_eq_orbit_iff.1 hphase'
      have happroach := (flight.phase_eq_approach_iff.1 hphase).1
      linarith
    | approach => exact le_rfl
    | arrived => decide
  | arrived =>
    have harrived : flight.phase t' = .arrived :=
      flight.phase_eq_arrived_iff.2 ((flight.phase_eq_arrived_iff.1 hphase).trans hle)
    rw [harrived]

/-! ### The path -/

theorem ease_zero : ease (0 : ℝ) = 0 := by
  norm_num [ease]

theorem ease_one : ease (1 : ℝ) = 1 := by
  norm_num [ease]

theorem arc_zero (first control last : Vector3 ℝ) : arc first control last 0 = first := by
  ext <;> norm_num [arc, Vector3.scale]

theorem arc_one (first control last : Vector3 ℝ) : arc first control last 1 = last := by
  ext <;> norm_num [arc, Vector3.scale]

/-- The progress eases the part of the approach that is over, cut off at both ends. -/
theorem progress_eq (since : ℝ) :
    flight.progress since = ease (max 0 (min 1 (since / flight.approach))) := by
  rw [progress, Scalar.clamp_unit]

theorem progress_zero : flight.progress 0 = 0 := by
  rw [progress_eq, zero_div, min_eq_right zero_le_one, max_self, ease_zero]

theorem progress_approach (h : 0 < flight.approach) : flight.progress flight.approach = 1 := by
  rw [progress_eq, div_self h.ne', min_self, max_eq_right zero_le_one, ease_one]

/-- The progress as two cubic pieces in their plain form. -/
theorem ease_eq (t : ℝ) :
    ease t = if 1 / 2 ≤ t then 1 - (2 - 2 * t) ^ 3 / 2 else 4 * t ^ 3 := by
  rw [ease]
  split_ifs with hlow hhigh hhigh
  · norm_num at hlow
    linarith
  · norm_num
    ring
  · norm_num
    ring
  · norm_num at hlow hhigh
    linarith

/-- The two halves of the progress meet in the middle. -/
theorem continuous_ease : Continuous (ease : ℝ → ℝ) := by
  have hhigh : Continuous fun t : ℝ => 1 - (2 - 2 * t) ^ 3 / 2 := by fun_prop
  have hlow : Continuous fun t : ℝ => 4 * t ^ 3 := by fun_prop
  rw [funext ease_eq]
  refine hhigh.if_le hlow continuous_const continuous_id fun t ht => ?_
  rw [← ht]
  norm_num

theorem continuous_progress : Continuous flight.progress := by
  rw [funext flight.progress_eq]
  have hclamped : Continuous fun since : ℝ => max 0 (min 1 (since / flight.approach)) := by
    fun_prop
  exact continuous_ease.comp hclamped

/-- A point moves along an arc without a jump where the progress has none. -/
theorem continuous_arc {progress : ℝ → ℝ} (h : Continuous progress) (first control last : Vector3 ℝ)
    (axis : Axis) : Continuous fun t => (arc first control last (progress t)).coordinate axis := by
  cases axis
  all_goals
    simp only [arc, Vector3.coordinate, Vector3.x_add, Vector3.y_add, Vector3.z_add, Vector3.scale]
    fun_prop

section

variable [Trig ℝ] (nest : Nest ℝ) (platform : Platform ℝ)

/-- The approach begins where the orbit ends. -/
theorem approachPoint_zero :
    flight.approachPoint nest platform 0 = flight.orbitEnd nest platform := by
  rw [approachPoint, progress_zero]
  exact arc_zero _ _ _

/-- The approach ends above the nest. -/
theorem approachPoint_approach (h : 0 < flight.approach) :
    flight.approachPoint nest platform flight.approach = hoverPoint nest := by
  rw [approachPoint, flight.progress_approach h]
  exact arc_one _ _ _

theorem position_of_duration_le (h : flight.duration ≤ t) :
    (flight.pose nest platform t).position = hoverPoint nest := by
  rw [pose, flight.phase_eq_arrived_iff.2 h]

theorem position_of_lt_duration (h : flight.orbitDuration ≤ t) (h' : t < flight.duration) :
    (flight.pose nest platform t).position =
      flight.approachPoint nest platform (t - flight.orbitDuration) := by
  rw [pose, flight.phase_eq_approach_iff.2 ⟨h, h'⟩]

theorem position_of_lt_orbitDuration (h : t < flight.orbitDuration) :
    (flight.pose nest platform t).position = orbitPoint nest platform (t * flight.speed) t := by
  rw [pose, flight.phase_eq_orbit_iff.2 h]

theorem continuous_approachPoint (axis : Axis) :
    Continuous fun since => (flight.approachPoint nest platform since).coordinate axis :=
  continuous_arc flight.continuous_progress _ _ _ axis

/-- The approach goes over into the stay above the nest without a jump. -/
theorem continuous_landing (h : 0 < flight.approach) (axis : Axis) :
    Continuous fun t => if flight.duration ≤ t then (hoverPoint nest).coordinate axis
      else (flight.approachPoint nest platform (t - flight.orbitDuration)).coordinate axis := by
  have hsince : Continuous fun t => t - flight.orbitDuration := by fun_prop
  have happroach : Continuous fun t =>
      (flight.approachPoint nest platform (t - flight.orbitDuration)).coordinate axis :=
    (flight.continuous_approachPoint nest platform axis).comp hsince
  refine continuous_const.if_le happroach continuous_const continuous_id fun t ht => ?_
  have hend : t - flight.orbitDuration = flight.approach := by
    rw [flight.duration_of_approach_pos h] at ht
    linarith
  rw [hend, flight.approachPoint_approach nest platform h]

/-- From the end of the orbit on, a flight is on its approach or has arrived. -/
theorem position_of_orbitDuration_le (h : flight.orbitDuration ≤ t) (axis : Axis) :
    (flight.pose nest platform t).position.coordinate axis =
      if flight.duration ≤ t then (hoverPoint nest).coordinate axis
      else (flight.approachPoint nest platform (t - flight.orbitDuration)).coordinate axis := by
  split_ifs with hend
  · rw [flight.position_of_duration_le nest platform hend]
  · rw [flight.position_of_lt_duration nest platform h (not_le.1 hend)]

/-- With an approach that takes time, there is no jump from the end of the orbit on. -/
theorem continuousOn_position (h : 0 < flight.approach) (axis : Axis) :
    ContinuousOn (fun t => (flight.pose nest platform t).position.coordinate axis)
      (Set.Ici flight.orbitDuration) :=
  (flight.continuous_landing nest platform h axis).continuousOn.congr
    fun _ ht => flight.position_of_orbitDuration_le nest platform ht axis

/-- The path has no jump at all if the sine and the cosine have none. -/
theorem continuous_position (hsin : Continuous (Trig.sin : ℝ → ℝ))
    (hcos : Continuous (Trig.cos : ℝ → ℝ)) (h : 0 < flight.approach) (axis : Axis) :
    Continuous fun t => (flight.pose nest platform t).position.coordinate axis := by
  have horbit : Continuous fun t =>
      (orbitPoint nest platform (t * flight.speed) t).coordinate axis := by
    cases axis
    all_goals
      simp only [orbitPoint, Vector3.coordinate]
      fun_prop
  have hposition : (fun t => (flight.pose nest platform t).position.coordinate axis) = fun t =>
      if flight.orbitDuration ≤ t then
        if flight.duration ≤ t then (hoverPoint nest).coordinate axis
        else (flight.approachPoint nest platform (t - flight.orbitDuration)).coordinate axis
      else (orbitPoint nest platform (t * flight.speed) t).coordinate axis := by
    funext t
    rcases le_or_gt flight.orbitDuration t with hbehind | hbefore
    · rw [if_pos hbehind, flight.position_of_orbitDuration_le nest platform hbehind]
    · rw [if_neg (not_le.2 hbefore), flight.position_of_lt_orbitDuration nest platform hbefore]
  rw [hposition]
  refine (flight.continuous_landing nest platform h axis).if_le horbit continuous_const
    continuous_id fun t ht => ?_
  -- The approach still lies ahead where the orbit ends.
  have hahead : ¬flight.duration ≤ t := by
    rw [flight.duration_of_approach_pos h, ← ht]
    linarith
  rw [if_neg hahead, ← ht, sub_self, approachPoint_zero, orbitEnd]

/-- A flight is in orbit before the first of its two durations, has arrived from the second one on,
and approaches in between, however long its orbit and its approach are, so it never goes back to an
earlier phase. An approach that takes any time leaves from where the orbit ends and ends where the
flight stays, with no jump on the way. -/
theorem pose_phases :
    (∀ t, ((flight.pose nest platform t).phase = .orbit ↔ t < flight.orbitDuration) ∧
      ((flight.pose nest platform t).phase = .arrived ↔ flight.duration ≤ t) ∧
      ((flight.pose nest platform t).phase = .approach ↔
        flight.orbitDuration ≤ t ∧ t < flight.duration)) ∧
      Monotone (fun t => (flight.pose nest platform t).phase.stage) ∧
      (0 < flight.approach →
        (flight.pose nest platform flight.orbitDuration).phase = .approach ∧
        (flight.pose nest platform flight.orbitDuration).position =
          orbitPoint nest platform (flight.orbitDuration * flight.speed) flight.orbitDuration ∧
        flight.approachPoint nest platform (flight.duration - flight.orbitDuration) =
          hoverPoint nest ∧
        ∀ axis, ContinuousOn (fun t => (flight.pose nest platform t).position.coordinate axis)
          (Set.Ici flight.orbitDuration)) ∧
      ∀ t, flight.duration ≤ t → (flight.pose nest platform t).position = hoverPoint nest := by
  have hphase : ∀ t, (flight.pose nest platform t).phase = flight.phase t := fun _ => rfl
  refine ⟨fun t => ?_, ?_, fun h => ?_, fun t => flight.position_of_duration_le nest platform⟩
  · rw [hphase]
    exact ⟨flight.phase_eq_orbit_iff, flight.phase_eq_arrived_iff, flight.phase_eq_approach_iff⟩
  · exact flight.monotone_stage
  · have hduration := flight.duration_of_approach_pos h
    have hahead : flight.orbitDuration < flight.duration := by linarith
    refine ⟨flight.phase_eq_approach_iff.2 ⟨le_rfl, hahead⟩, ?_, ?_,
      flight.continuousOn_position nest platform h⟩
    · rw [flight.position_of_lt_duration nest platform le_rfl hahead, sub_self,
        approachPoint_zero, orbitEnd]
    · rw [hduration, add_sub_cancel_left, flight.approachPoint_approach nest platform h]

end

noncomputable def perch : Nest ℝ where
  parent := 0
  position := ⟨0, 3, 0⟩
  radius := 1
  up := .unitY
  orientation := .identity
  anchors := []
  nearView := 1.5
  farView := 5
  depth := 0.3

/-- The standard flight has all three phases. -/
theorem standard_pose_phases :
    0 < (standard : Flight ℝ).approach ∧
      (pose standard perch .fallback 0).phase = .orbit ∧
      (pose standard perch .fallback (orbitDuration standard)).phase = .approach ∧
      (pose standard perch .fallback (orbitDuration standard)).position =
        orbitPoint perch .fallback (orbitDuration standard * standard.speed)
          (orbitDuration standard) ∧
      approachPoint standard perch .fallback (duration standard - orbitDuration standard) =
        hoverPoint perch ∧
      (pose standard perch .fallback (duration standard)).phase = .arrived ∧
      (pose standard perch .fallback (duration standard)).position = hoverPoint perch := by
  have happroach : 0 < (standard : Flight ℝ).approach := by norm_num [standard]
  have horbit : 0 < (standard : Flight ℝ).orbitDuration := by
    norm_num [orbitDuration, standard, lap]
  obtain ⟨hphases, -, hends, hstays⟩ := pose_phases (standard : Flight ℝ) perch .fallback
  obtain ⟨hphase, hbegin, hend, -⟩ := hends happroach
  exact ⟨happroach, (hphases 0).1.2 horbit, hphase, hbegin, hend,
    (hphases (duration standard)).2.1.2 le_rfl, hstays (duration standard) le_rfl⟩

end Arbor.Flight
