import Mathlib.Tactic.Linarith
import Arbor.Camera.View
import Arbor.Proofs.Index.Nearest

/-! When a camera counts as facing into a branch, in exact arithmetic. The check asks for the branch
with the nearest axis and for no other one: a camera inside a thick branch goes unnoticed where the
axis of a thin one is nearer. -/

namespace Arbor

def Report.Has {α : Type} (report : Report α) (kind : IssueKind) (severity : Severity) : Prop :=
  ∃ issue ∈ report.issues, issue.kind = kind ∧ issue.severity = severity

namespace Severity

variable {p : Prop} [Decidable p]

theorem error_eq_ite_iff : error = (if p then error else warning) ↔ p := by
  by_cases h : p
  · rw [if_pos h]
    exact iff_of_true rfl h
  · rw [if_neg h]
    exact iff_of_false nofun h

theorem warning_eq_ite_iff : warning = (if p then error else warning) ↔ ¬p := by
  by_cases h : p
  · rw [if_pos h]
    exact iff_of_false nofun (not_not.2 h)
  · rw [if_neg h]
    exact iff_of_true rfl h

end Severity

namespace View

section Checks

/-! ### What each check reports -/

variable {α : Type} [Scalar α] {standard : ViewStandard α} {view : View α} {hit : BranchHit α}
  {nest : Option (Nest α)} {index : SpatialIndex α} {issue : Issue α}

/-- A view has a wall within the threshold, and the wall is an error within the radius. -/
theorem wallIssue?_eq_some_iff : wallIssue? standard hit = some issue ↔
    hit.distance < hit.branch.meanRadius * standard.wallFactor ∧
      issue = ⟨.facesWall, if hit.distance < hit.branch.meanRadius then .error else .warning,
        hit.distance, hit.branch.meanRadius * standard.wallFactor⟩ := by
  rw [wallIssue?, Option.ite_none_right_eq_some, Option.some_inj]
  exact and_congr_right fun _ => eq_comm

theorem kind_of_wallIssue? (h : wallIssue? standard hit = some issue) :
    issue.kind = .facesWall := by
  rw [(wallIssue?_eq_some_iff.1 h).2]

theorem kind_of_alignmentIssue? (h : alignmentIssue? standard view hit = some issue) :
    issue.kind = .alongBranch := by
  obtain ⟨-, ⟨⟩⟩ := Option.ite_none_right_eq_some.1 h
  rfl

theorem kind_of_nestIssue? {nest : Nest α} (h : nestIssue? standard view nest = some issue) :
    issue.kind = .nestUnseen := by
  obtain ⟨-, ⟨⟩⟩ := Option.ite_none_right_eq_some.1 h
  rfl

theorem kind_of_occlusionIssue? (h : occlusionIssue? standard view index = some issue) :
    issue.kind = .playerHidden := by
  obtain ⟨player, -, h⟩ := Option.bind_eq_some_iff.1 h
  obtain ⟨-, h⟩ := Option.ite_none_right_eq_some.1 h
  obtain ⟨hit, -, h⟩ := Option.bind_eq_some_iff.1 h
  obtain ⟨-, ⟨⟩⟩ := Option.ite_none_right_eq_some.1 h
  rfl

/-- An issue of a view is one of those that the four checks report. -/
theorem mem_issues {index : Option (SpatialIndex α)} :
    issue ∈ view.issues standard nest index ↔
      (index.bind (·.nearestBranch? view.position)).bind (wallIssue? standard) = some issue ∨
      (index.bind (·.nearestBranch? view.position)).bind (alignmentIssue? standard view) =
        some issue ∨
      nest.bind (nestIssue? standard view) = some issue ∨
      index.bind (occlusionIssue? standard view) = some issue := by
  rw [issues, List.mem_filterMap]
  simp only [List.mem_cons, List.not_mem_nil, or_false, id_eq, exists_eq_right, eq_comm]

/-- An issue of a wall can only come from the check for walls. -/
theorem mem_issues_iff_of_facesWall (hkind : issue.kind = .facesWall) :
    issue ∈ view.issues standard nest (some index) ↔
      (index.nearestBranch? view.position).bind (wallIssue? standard) = some issue := by
  rw [mem_issues, Option.bind_some, Option.bind_some]
  refine or_iff_left ?_
  rintro (halignment | hnest | hocclusion)
  · obtain ⟨hit, -, h⟩ := Option.bind_eq_some_iff.1 halignment
    rw [kind_of_alignmentIssue? h] at hkind
    exact IssueKind.noConfusion hkind
  · obtain ⟨nest, -, h⟩ := Option.bind_eq_some_iff.1 hnest
    rw [kind_of_nestIssue? h] at hkind
    exact IssueKind.noConfusion hkind
  · rw [kind_of_occlusionIssue? hocclusion] at hkind
    exact IssueKind.noConfusion hkind

/-- Whether a view has a wall of a given severity depends on the branch that the search finds. -/
theorem check_has_facesWall_iff (hhit : index.nearestBranch? view.position = some hit)
    (severity : Severity) :
    (view.check standard nest (some index)).Has .facesWall severity ↔
      hit.distance < hit.branch.meanRadius * standard.wallFactor ∧
        severity = if hit.distance < hit.branch.meanRadius then .error else .warning := by
  constructor
  · rintro ⟨issue, hissue, hkind, rfl⟩
    have hwall := (mem_issues_iff_of_facesWall hkind).1 hissue
    rw [hhit, Option.bind_some, wallIssue?_eq_some_iff] at hwall
    obtain ⟨hnear, rfl⟩ := hwall
    exact ⟨hnear, rfl⟩
  · rintro ⟨hnear, rfl⟩
    have hwall := wallIssue?_eq_some_iff.2 ⟨hnear, rfl⟩
    refine ⟨_, (mem_issues_iff_of_facesWall (kind_of_wallIssue? hwall)).2 ?_, rfl, rfl⟩
    rw [hhit, Option.bind_some, hwall]

end Checks

/-! ### The nearest branch of all -/

/-- Near a branch, a camera is judged by the nearest branch of all, the first placed of those
equally near: its view has an error if the camera is closer to the axis of that branch than its
mean radius, a warning if it is not, but closer than 1.2 times that, and else neither. -/
theorem check_has_facesWall_of_gap_le (index : SpatialIndex ℝ) (h : index.Reachable)
    (nest : Option (Nest ℝ)) (view : View ℝ)
    (hnear : ∃ branch ∈ index.branches, branch.gap view.position ≤ index.cellSize / 2) :
    ∃ place nearest, index.IsNearestBranch view.position place nearest ∧
      ((view.check .standard nest (some index)).Has .facesWall .error ↔
        nearest.gap view.position < nearest.meanRadius) ∧
      ((view.check .standard nest (some index)).Has .facesWall .warning ↔
        nearest.meanRadius ≤ nearest.gap view.position ∧
          nearest.gap view.position < nearest.meanRadius * 1.2) := by
  obtain ⟨branch, hbranch, hgap⟩ := hnear
  obtain ⟨place, nearest, hnearest⟩ := SpatialIndex.exists_isNearestBranch view.position hbranch
  have hclose : nearest.gap view.position ≤ index.cellSize / 2 :=
    (hnearest.gap_le hbranch).trans hgap
  have hfactor : (ViewStandard.standard : ViewStandard ℝ).wallFactor = 1.2 := rfl
  simp only [check_has_facesWall_iff (hnearest.nearestBranch?_eq_some h hclose), hfactor,
    Severity.error_eq_ite_iff, Severity.warning_eq_ite_iff]
  refine ⟨place, nearest, hnearest, and_iff_right_of_imp fun hinside => ?_, ?_⟩
  · -- A camera inside is closer than 1.2 times the radius too, since the radius is positive.
    have hgap := nearest.gap_nonneg view.position
    norm_num
    linarith
  · rw [not_lt, and_comm]

/-! ### A thin branch beside the axis of a thick one -/

theorem meanRadius_pole (x radius : ℝ) : (Branch.pole x radius).meanRadius = radius := by
  rw [Branch.meanRadius, Branch.pole]
  norm_num
  ring

noncomputable def grove : SpatialIndex ℝ := .build #[] #[.pole 0 3.0, .pole 3.0 0.5] none

theorem reachable_grove : grove.Reachable := .build _ _ _

theorem grove_cellSize : grove.cellSize = 5 := SpatialIndex.cellSize_build_none _ _

/-- The two poles are all that stands in the grove. -/
theorem grove_branches {i : Nat} {branch : Branch ℝ} (h : grove.branches[i]? = some branch) :
    (i = 0 ∧ branch = .pole 0 3.0) ∨ (i = 1 ∧ branch = .pole 3.0 0.5) := by
  have hbranches : grove.branches = #[.pole 0 3.0, .pole 3.0 0.5] := rfl
  rw [hbranches] at h
  match i with
  | 0 => exact Or.inl ⟨rfl, (Option.some.inj h).symm⟩
  | 1 => exact Or.inr ⟨rfl, (Option.some.inj h).symm⟩
  | i + 2 => exact absurd h nofun

theorem thick_mem_grove : .pole 0 3.0 ∈ grove.branches := Array.mem_of_getElem? (i := 0) rfl

noncomputable def lookout (x : ℝ) : View ℝ :=
  ⟨⟨x, 5.0, 0⟩, ⟨0, 0, 1⟩, .thirdPerson, none, 10.0⟩

/-- A camera on the axis of the thick pole is inside of it, and its view has an error. -/
theorem grove_shows_pole :
    grove.Reachable ∧
      (∃ branch ∈ grove.branches, branch.gap (lookout 0).position ≤ grove.cellSize / 2) ∧
      ((lookout 0).check .standard none (some grove)).Has .facesWall .error := by
  have hthick : (Branch.pole 0 3.0).gap (lookout 0).position = 0 := by
    rw [lookout, Branch.pole_gap, sub_zero, abs_zero]
  have hnear : ∃ branch ∈ grove.branches, branch.gap (lookout 0).position ≤ grove.cellSize / 2 := by
    refine ⟨.pole 0 3.0, thick_mem_grove, ?_⟩
    rw [hthick, grove_cellSize]
    norm_num
  obtain ⟨place, nearest, hnearest, herror, -⟩ :=
    check_has_facesWall_of_gap_le grove reachable_grove none (lookout 0) hnear
  refine ⟨reachable_grove, hnear, herror.2 ?_⟩
  have hzero : nearest.gap (lookout 0).position ≤ 0 :=
    (hnearest.gap_le thick_mem_grove).trans hthick.le
  rcases grove_branches hnearest.getElem?_eq with ⟨-, rfl⟩ | ⟨-, rfl⟩
  all_goals
    rw [meanRadius_pole]
    norm_num
    linarith

/-- Two units from the axis of the thick pole the camera is inside of it, but the axis of the thin
one is nearer, and the view has no wall. -/
theorem grove_hides_pole :
    grove.Reachable ∧
      (∃ branch ∈ grove.branches, branch.gap (lookout 2.0).position < branch.meanRadius ∧
        branch.gap (lookout 2.0).position ≤ grove.cellSize / 2) ∧
      ∀ severity, ¬((lookout 2.0).check .standard none (some grove)).Has .facesWall severity := by
  have hthick : (Branch.pole 0 3.0).gap (lookout 2.0).position = 2 := by
    rw [lookout, Branch.pole_gap]
    norm_num
  have hthin : (Branch.pole 3.0 0.5).gap (lookout 2.0).position = 1 := by
    rw [lookout, Branch.pole_gap]
    norm_num
  have hnearest : grove.IsNearestBranch (lookout 2.0).position 1 (Branch.pole 3.0 0.5) := by
    refine ⟨rfl, fun i other hother => ?_⟩
    rcases grove_branches hother with ⟨rfl, rfl⟩ | ⟨rfl, rfl⟩
    · rw [hthick, hthin]
      exact Or.inl one_lt_two
    · exact Or.inr ⟨rfl, le_rfl⟩
  refine ⟨reachable_grove, ⟨.pole 0 3.0, thick_mem_grove, ?_, ?_⟩, ?_⟩
  · rw [hthick, meanRadius_pole]
    norm_num
  · rw [hthick, grove_cellSize]
    norm_num
  · have hclose : (Branch.pole 3.0 0.5).gap (lookout 2.0).position ≤ grove.cellSize / 2 := by
      rw [hthin, grove_cellSize]
      norm_num
    intro severity
    rw [check_has_facesWall_iff (hnearest.nearestBranch?_eq_some reachable_grove hclose)]
    rintro ⟨hthreshold, -⟩
    rw [hthin, meanRadius_pole] at hthreshold
    norm_num [ViewStandard.standard] at hthreshold

end View

end Arbor
