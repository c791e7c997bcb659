import Mathlib.Tactic.NormNum
import Arbor.Proofs.Space.Quaternion
import Arbor.Turtle.Walk

/-! The turtle never stretches space. Whatever turns it has made and whatever brackets have closed,
its orientation is a unit quaternion, so that in exact arithmetic a branch is as long as the number
behind its symbol says. -/

namespace Arbor

/-- In exact arithmetic no number is too large to be taken. -/
theorem Numeral.valueOr_real (payload : Option Word) (default : ℝ) :
    valueOr payload default = ((payload.bind leading?).map value).getD default := by
  rw [valueOr]
  cases (payload.bind leading?).map (value : Numeral → ℝ) <;> rfl

namespace Turtle

theorem Turn.lengthSq_axis (about : Turn) : (about.axis : Vector3 ℝ).lengthSq = 1 := by
  cases about <;>
    norm_num [axis, Vector3.unitX, Vector3.unitY, Vector3.unitZ, Vector3.lengthSq_eq]

def Instruction.drawn? (i : Instruction) : Option (Option Numeral) :=
  if i.command = .draw then some (i.payload.bind Numeral.leading?) else none

/-- The length that a numeral asks for: the absolute value of its number, or one where there is no
numeral. -/
noncomputable def askedLength (numeral : Option Numeral) : ℝ :=
  |(numeral.map Numeral.value).getD 1|

namespace Pose

variable {pose : Pose ℝ}

/-- A unit quaternion turns the upward axis without stretching it. -/
theorem length_heading (h : pose.orientation.IsUnit) : pose.heading.length = 1 := by
  rw [heading, h.length_apply, Vector3.length_unitY]

/-- The turtle goes as far as it is told, forwards or backwards. -/
theorem distance_advance (h : pose.orientation.IsUnit) (distance : ℝ) :
    pose.position.distance (pose.advance distance).position = |distance| := by
  have hlength := length_heading h
  rw [advance, Vector3.distance_add, Vector3.length_scale, hlength, mul_one]

variable [Trig ℝ] [Trig.IsCircular]

/-- There is nothing to normalize after a turn. -/
theorem orientation_rotate (h : pose.orientation.IsUnit) (about : Turn) (degrees : ℝ) :
    (pose.rotate about.axis degrees).orientation =
      pose.orientation * .ofAxisAngle about.axis (Scalar.radians degrees) :=
  (h.mul (Rotation.isUnit_ofAxisAngle about.lengthSq_axis _)).normalize_eq

theorem isUnit_rotate (h : pose.orientation.IsUnit) (about : Turn) (degrees : ℝ) :
    (pose.rotate about.axis degrees).orientation.IsUnit := by
  rw [orientation_rotate h]
  exact h.mul (Rotation.isUnit_ofAxisAngle about.lengthSq_axis _)

/-- A turn back undoes a turn. -/
theorem rotate_rotate_neg [Trig.IsSymmetric ℝ] (h : pose.orientation.IsUnit) (about : Turn)
    (degrees : ℝ) : (pose.rotate about.axis degrees).rotate about.axis (-degrees) = pose := by
  have hback : Scalar.radians (-degrees) = -Scalar.radians degrees := neg_mul _ _
  have horientation :
      ((pose.rotate about.axis degrees).rotate about.axis (-degrees)).orientation =
        pose.orientation := by
    rw [orientation_rotate (isUnit_rotate h about degrees), orientation_rotate h, hback,
      Rotation.ofAxisAngle_neg]
    exact (Rotation.isUnit_ofAxisAngle about.lengthSq_axis _).mul_mul_conj_cancel _
  -- No turn touches the rest of the pose.
  exact congrArg (fun orientation => ({ pose with orientation } : Pose ℝ)) horientation

end Pose

structure Walk.IsRigid (walk : Walk ℝ) : Prop where
  current : walk.pose.orientation.IsUnit
  saved : ∀ state ∈ walk.saved, state.1.orientation.IsUnit
  markers : ∀ marker ∈ walk.markers, marker.direction.length = 1

namespace Walk.IsRigid

variable {walk : Walk ℝ}

theorem start : (Walk.start : Walk ℝ).IsRigid :=
  ⟨Rotation.isUnit_identity, nofun, nofun⟩

theorem push (h : walk.IsRigid) : walk.push.IsRigid := by
  refine ⟨h.current, ?_, h.markers⟩
  intro state hstate
  rcases List.mem_cons.1 hstate with rfl | hstate
  · exact h.current
  · exact h.saved state hstate

theorem pop (h : walk.IsRigid) : walk.pop.IsRigid := by
  cases hsaved : walk.saved with
  | nil => rwa [Walk.pop_of_saved_nil hsaved]
  | cons state saved =>
    have hstates := h.saved
    rw [hsaved, List.forall_mem_cons] at hstates
    rw [Walk.pop_of_saved_cons hsaved]
    exact ⟨hstates.1, hstates.2, h.markers⟩

theorem mark (h : walk.IsRigid) (payload : Word) : (walk.mark payload).IsRigid := by
  refine ⟨h.current, h.saved, ?_⟩
  intro marker hmarker
  rcases Array.mem_push.1 hmarker with hmarker | rfl
  · exact h.markers marker hmarker
  · exact Pose.length_heading h.current

variable [Trig ℝ]

/-- A branch is drawn as long as its instruction says. -/
theorem length_branches_step (h : walk.IsRigid) (angle : ℝ) (i : Instruction) :
    (walk.step angle i).branches.toList.map Branch.length =
      walk.branches.toList.map Branch.length ++ (i.drawn?.map askedLength).toList := by
  by_cases hi : i.command = .draw
  · obtain ⟨command, payload⟩ := i
    obtain rfl : command = .draw := hi
    have hlength := Pose.distance_advance h.current (Numeral.valueOr payload 1.0)
    rw [Walk.step, Walk.draw, Array.toList_push, List.map_append, List.map_singleton,
      Instruction.drawn?, if_pos rfl, Option.map_some, askedLength,
      ← Scalar.one_real, ← Numeral.valueOr_real, ← hlength]
    rfl
  · rw [walk.branches_step_of_ne angle hi, Instruction.drawn?, if_neg hi, Option.map_none,
      Option.toList_none, List.append_nil]

variable [Trig.IsCircular]

/-- One instruction leaves all orientations unit quaternions. -/
theorem step (h : walk.IsRigid) (angle : ℝ) (i : Instruction) : (walk.step angle i).IsRigid := by
  obtain ⟨command, payload⟩ := i
  -- Only a turn touches the orientation, and only a mark takes a direction from it.
  cases command with
  | turn about backward => exact ⟨Pose.isUnit_rotate h.current about _, h.saved, h.markers⟩
  | mark => exact h.mark _
  | push => exact h.push
  | pop => exact h.pop
  | _ => exact ⟨h.current, h.saved, h.markers⟩

theorem run (h : walk.IsRigid) (angle : ℝ) (list : List Instruction) :
    (walk.run angle list).IsRigid := by
  induction list generalizing walk with
  | nil => exact h
  | cons i list ih => exact ih (h.step angle i)

/-- The branches of a walk are as long as its instructions say, in order. -/
theorem length_branches_run (h : walk.IsRigid) (angle : ℝ) (list : List Instruction) :
    (walk.run angle list).branches.toList.map Branch.length =
      walk.branches.toList.map Branch.length ++
        (list.filterMap Instruction.drawn?).map askedLength := by
  induction list generalizing walk with
  | nil => exact (List.append_nil _).symm
  | cons i list ih =>
    -- The first step keeps the walk rigid, so the rest of it draws true as well.
    rw [run_cons, ih (h.step angle i), h.length_branches_step, List.append_assoc,
      List.filterMap_cons]
    cases i.drawn? <;> rfl

/-- The two symbols of a turn undo each other, also where neither of them has a number. -/
theorem step_step_turn [Trig.IsSymmetric ℝ] (h : walk.IsRigid) (angle : ℝ) (about : Turn)
    (backward : Bool) (payload : Option Word) :
    (walk.step angle ⟨.turn about backward, payload⟩).step angle ⟨.turn about !backward, payload⟩ =
      walk := by
  -- Both symbols read the same payload, so they turn by the same number with or without a default.
  generalize hdegrees : Numeral.valueOr payload angle = degrees
  have hpose : (walk.pose.rotate about.axis (if backward then -degrees else degrees)).rotate
      about.axis (if !backward then -degrees else degrees) = walk.pose := by
    cases backward with
    | false => exact Pose.rotate_rotate_neg h.current about degrees
    | true =>
      have hback := Pose.rotate_rotate_neg h.current about (-degrees)
      rwa [neg_neg] at hback
  subst hdegrees
  exact congrArg (fun pose => ({ walk with pose } : Walk ℝ)) hpose

end Walk.IsRigid

/-- Whether the turtle comes by a state while it reads a word, or ends there. -/
def Passes [Trig ℝ] (angle : ℝ) (w : Word) (walk : Walk ℝ) : Prop :=
  ∃ before, before <+: instructions w ∧ walk = Walk.start.run angle before

/-- Wherever a word has led the turtle, its orientation is a unit quaternion, and so is each one
that it will come back to: it heads in a direction of length one, a turn leaves nothing to
normalize, and a turn followed by its opposite with the same payload changes nothing at all. All
branches are as long as the numbers behind their symbols are large, or of length one without a
number, and all markers point in directions of length one. -/
theorem interpret_isRigid [Trig ℝ] [Trig.IsCircular] (angle : ℝ) (w : Word) :
    (∀ walk, Passes angle w walk →
      walk.pose.orientation.IsUnit ∧ (∀ state ∈ walk.saved, state.1.orientation.IsUnit) ∧
      walk.pose.heading.length = 1 ∧
      (∀ (about : Turn) (degrees : ℝ), (walk.pose.rotate about.axis degrees).orientation =
        walk.pose.orientation * .ofAxisAngle about.axis (Scalar.radians degrees)) ∧
      ∀ [Trig.IsSymmetric ℝ] about backward payload,
        (walk.step angle ⟨.turn about backward, payload⟩).step angle
          ⟨.turn about !backward, payload⟩ = walk) ∧
    (interpret angle w).branches.toList.map Branch.length =
      ((instructions w).filterMap Instruction.drawn?).map askedLength ∧
    ∀ marker ∈ (interpret angle w).markers, marker.direction.length = 1 := by
  have hrigid : ∀ list, (Walk.start.run angle list).IsRigid := Walk.IsRigid.start.run angle
  refine ⟨?_, ?_, ?_⟩
  · rintro walk ⟨before, -, rfl⟩
    have hwalk := hrigid before
    exact ⟨hwalk.current, hwalk.saved, Pose.length_heading hwalk.current,
      Pose.orientation_rotate hwalk.current, hwalk.step_step_turn angle⟩
  · exact Walk.IsRigid.start.length_branches_run angle (instructions w)
  · exact (hrigid (instructions w)).markers

def tendril : Word := "+(30)F(-2)[&/(9)F@(a)\\^(x)G(x)".toList

/-- Turns about all three axes around a branch drawn backwards, one without a number and one whose
payload has none. -/
theorem tendril_isRigid :
    Passes (25 : ℝ) tendril (Walk.start.run 25 [⟨.turn .yaw false, some ['3', '0']⟩]) ∧
      (Walk.start.run (25 : ℝ) [⟨.turn .yaw false, some ['3', '0']⟩]).pose.heading.length = 1 ∧
      ((Walk.start.run (25 : ℝ) [⟨.turn .yaw false, some ['3', '0']⟩]).step 25
        ⟨.turn .roll true, none⟩).step 25 ⟨.turn .roll false, none⟩ =
          Walk.start.run (25 : ℝ) [⟨.turn .yaw false, some ['3', '0']⟩] ∧
      (interpret (25 : ℝ) tendril).branches.toList.map Branch.length = [2, 1, 1] ∧
      ∀ marker ∈ (interpret (25 : ℝ) tendril).markers, marker.direction.length = 1 := by
  obtain ⟨hstates, hlengths, hmarkers⟩ := interpret_isRigid (25 : ℝ) tendril
  have hpasses : Passes (25 : ℝ) tendril
      (Walk.start.run 25 [⟨.turn .yaw false, some ['3', '0']⟩]) :=
    ⟨_, by decide +kernel, rfl⟩
  have hnumerals : (instructions tendril).filterMap Instruction.drawn? =
      [some ⟨some '-', ['2'], none, none⟩, none, none] := by decide +kernel
  have hdigit : Numeral.natural ['2'] = 2 := by decide
  have htwo : Numeral.value ⟨some '-', ['2'], none, none⟩ = (-2 : ℝ) := by
    norm_num [Numeral.value, Numeral.scale, hdigit]
  have hlengths' : [some ⟨some '-', ['2'], none, none⟩, none, none].map askedLength =
      ([2, 1, 1] : List ℝ) := by
    simp [askedLength, htwo]
  rw [hnumerals, hlengths'] at hlengths
  obtain ⟨-, -, hheading, -, hundone⟩ := hstates _ hpasses
  exact ⟨hpasses, hheading, hundone .roll true none, hlengths, hmarkers⟩

end Turtle

end Arbor
