import Mathlib.Algebra.Order.Ring.Nat
import Mathlib.Data.List.Perm.Subperm
import Arbor.Proofs.Camera.Wall
import Arbor.Proofs.Index.Soundness

/-! Reports as a whole. What needs a nest and what needs an index are checked apart from each other,
so a report with both has the issues that the two find alone; and the score is what is left of a
hundred points, however large the penalties are. -/

namespace Arbor

variable {α : Type}

def CameraMode.kinds : CameraMode → List IssueKind
  | firstPerson => [.facesWall, .alongBranch, .nestUnseen]
  | thirdPerson => [.facesWall, .nestUnseen, .playerHidden]

/-- The checks run in the order of the flags of their issues. -/
theorem CameraMode.pairwise_bit_kinds (mode : CameraMode) :
    (mode.kinds.map IssueKind.bit).Pairwise (· < ·) := by
  cases mode <;> decide

theorem CameraMode.nodup_kinds (mode : CameraMode) : mode.kinds.Nodup := by
  cases mode <;> decide

def Report.count (report : Report α) (severity : Severity) : Nat :=
  report.issues.countP (·.severity = severity)

theorem Report.count_error_add_count_warning (report : Report α) :
    report.count .error + report.count .warning = report.issues.length := by
  have hwarning : report.issues.countP (·.severity = .warning) =
      report.issues.countP fun issue => decide ¬decide (issue.severity = .error) = true := by
    apply List.countP_congr
    intro issue _
    cases issue.severity <;> simp
  rw [Report.count, Report.count, hwarning, ← List.length_eq_countP_add_countP]

/-! ### The score -/

namespace ViewStandard

variable (standard : ViewStandard α) (issues more : List (Issue α))

/-- What some issues cost together, however much that is. -/
def cost : Nat :=
  issues.countP (·.severity = .error) * standard.errorPenalty +
    issues.countP (·.severity = .warning) * standard.warningPenalty

theorem cost_nil : standard.cost [] = 0 := by
  simp [cost]

theorem cost_cons (issue : Issue α) :
    standard.cost (issue :: issues) = standard.penalty issue.severity + standard.cost issues := by
  cases hseverity : issue.severity with
  | warning =>
    rw [cost, List.countP_cons_of_neg (by simp [hseverity]),
      List.countP_cons_of_pos (by simp [hseverity]), penalty, cost]
    ring
  | error =>
    rw [cost, List.countP_cons_of_pos (by simp [hseverity]),
      List.countP_cons_of_neg (by simp [hseverity]), penalty, cost]
    ring

theorem cost_append : standard.cost (issues ++ more) = standard.cost issues + standard.cost more := by
  rw [cost, cost, cost, List.countP_append, List.countP_append]
  ring

theorem cost_perm {issues more : List (Issue α)} (h : issues.Perm more) :
    standard.cost issues = standard.cost more := by
  rw [cost, cost, h.countP_eq, h.countP_eq]

/-- Adding up with a limit at each step is adding up with the limit at the end. -/
theorem foldl_penalty {total : Nat} (htotal : total ≤ maxNat32) :
    issues.foldl (fun total issue => min maxNat32 (total + standard.penalty issue.severity)) total =
      min maxNat32 (total + standard.cost issues) := by
  induction issues generalizing total with
  | nil => rw [List.foldl_nil, cost_nil, Nat.add_zero, Nat.min_eq_right htotal]
  | cons issue issues ih =>
    rw [List.foldl_cons, ih (Nat.min_le_left _ _), cost_cons]
    omega

/-- The penalties are added up to the end of the unsigned 32-bit range and no further. -/
theorem totalPenalty_eq : standard.totalPenalty issues = min maxNat32 (standard.cost issues) := by
  rw [totalPenalty, foldl_penalty standard issues (Nat.zero_le _), Nat.zero_add]

/-- The limit lies beyond a hundred, so the score does not show it. -/
theorem score_eq : standard.score issues = 100 - standard.cost issues := by
  have hlimit : 100 ≤ maxNat32 := by decide
  rw [score, totalPenalty_eq]
  omega

variable {standard issues}

/-- If errors and warnings cost something, only a clean view costs nothing. -/
theorem cost_eq_zero_iff (herror : 0 < standard.errorPenalty)
    (hwarning : 0 < standard.warningPenalty) : standard.cost issues = 0 ↔ issues = [] := by
  cases issues with
  | nil => exact iff_of_true standard.cost_nil rfl
  | cons issue issues =>
    have hpenalty : 0 < standard.penalty issue.severity := by
      cases issue.severity
      · exact hwarning
      · exact herror
    rw [cost_cons]
    exact iff_of_false (by omega) (List.cons_ne_nil _ _)

end ViewStandard

/-- A check that reports one kind only, made at most once, gives that kind at most once. -/
theorem map_kind_sublist {β : Type} (check : β → Option (Issue α)) (input : Option β)
    {kind : IssueKind} (hkind : ∀ value issue, check value = some issue → issue.kind = kind) :
    ((input.bind check).toList.map (·.kind)).Sublist [kind] := by
  cases hfound : input.bind check with
  | none => exact List.nil_sublist _
  | some issue =>
    obtain ⟨value, -, hissue⟩ := Option.bind_eq_some_iff.1 hfound
    rw [Option.toList_some, List.map_singleton, hkind value issue hissue]

namespace View

variable [Scalar α] {standard : ViewStandard α} {view : View α} {hit : BranchHit α}
  {nest : Option (Nest α)} {index : Option (SpatialIndex α)} {issue : Issue α}

/-! ### The checks one after the other -/

/-- A following camera may look along a branch. -/
theorem alignmentIssue?_eq_none (h : view.mode = .thirdPerson) :
    alignmentIssue? standard view hit = none := by
  rw [alignmentIssue?, h]
  exact if_neg fun hmode => CameraMode.noConfusion hmode.1

/-- The player's own eyes see the player, whatever stands between. -/
theorem occlusionIssue?_eq_none {index : SpatialIndex α} (h : view.mode = .firstPerson) :
    occlusionIssue? standard view index = none := by
  rw [occlusionIssue?, Option.bind_eq_bind, Option.bind_eq_none_iff]
  intro player _
  rw [h]
  exact if_neg fun hmode => CameraMode.noConfusion hmode.1

theorem severity_of_nestIssue? {nest : Nest α} (h : nestIssue? standard view nest = some issue) :
    issue.severity = .warning := by
  obtain ⟨-, ⟨⟩⟩ := Option.ite_none_right_eq_some.1 h
  rfl

theorem severity_of_occlusionIssue? {index : SpatialIndex α}
    (h : occlusionIssue? standard view index = some issue) : issue.severity = .warning := by
  obtain ⟨player, -, h⟩ := Option.bind_eq_some_iff.1 h
  obtain ⟨-, h⟩ := Option.ite_none_right_eq_some.1 h
  obtain ⟨hit, -, h⟩ := Option.bind_eq_some_iff.1 h
  obtain ⟨-, ⟨⟩⟩ := Option.ite_none_right_eq_some.1 h
  rfl

/-- The issues of a view are those of its four checks, one after the other. -/
theorem issues_eq_append (standard : ViewStandard α) (view : View α) (nest : Option (Nest α))
    (index : Option (SpatialIndex α)) :
    view.issues standard nest index =
      ((index.bind (·.nearestBranch? view.position)).bind (wallIssue? standard)).toList ++
        ((index.bind (·.nearestBranch? view.position)).bind
          (alignmentIssue? standard view)).toList ++
        ((nest.bind (nestIssue? standard view)).toList ++
          (index.bind (occlusionIssue? standard view)).toList) := by
  rw [issues, List.filterMap_eq_flatMap_toList]
  simp only [List.flatMap_cons, List.flatMap_nil, List.append_nil, List.append_assoc, id_eq]

/-- The issues found with a nest and an index are those found with either alone. -/
theorem issues_perm (standard : ViewStandard α) (view : View α) (nest : Option (Nest α))
    (index : Option (SpatialIndex α)) :
    (view.issues standard nest index).Perm
      (view.issues standard nest none ++ view.issues standard none index) := by
  rw [issues_eq_append, issues_eq_append standard view nest none,
    issues_eq_append standard view none index]
  simp only [Option.bind_none, Option.toList_none, List.nil_append, List.append_nil]
  exact List.perm_append_comm_assoc _ _ _

/-- The kinds of a view's issues come in the order of the checks, those of its mode. -/
theorem kinds_sublist (standard : ViewStandard α) (view : View α) (nest : Option (Nest α))
    (index : Option (SpatialIndex α)) :
    ((view.issues standard nest index).map (·.kind)).Sublist view.mode.kinds := by
  have hwall := map_kind_sublist (wallIssue? standard)
    (index.bind (·.nearestBranch? view.position)) fun _ _ => kind_of_wallIssue?
  have halignment := map_kind_sublist (alignmentIssue? standard view)
    (index.bind (·.nearestBranch? view.position)) fun _ _ => kind_of_alignmentIssue?
  have hnest := map_kind_sublist (nestIssue? standard view) nest fun _ _ => kind_of_nestIssue?
  have hocclusion := map_kind_sublist (occlusionIssue? standard view) index
    fun _ _ => kind_of_occlusionIssue?
  rw [issues_eq_append, List.map_append, List.map_append, List.map_append]
  cases hmode : view.mode with
  | firstPerson =>
    have hnone : index.bind (occlusionIssue? standard view) = none :=
      Option.bind_eq_none_iff.2 fun _ _ => occlusionIssue?_eq_none hmode
    rw [hnone, Option.toList_none, List.map_nil, List.append_nil]
    exact (hwall.append halignment).append hnest
  | thirdPerson =>
    have hnone : (index.bind (·.nearestBranch? view.position)).bind
        (alignmentIssue? standard view) = none :=
      Option.bind_eq_none_iff.2 fun _ _ => alignmentIssue?_eq_none hmode
    rw [hnone, Option.toList_none, List.map_nil, List.append_nil]
    exact hwall.append (hnest.append hocclusion)

/-- Only a wall or a branch along the view can be an error. -/
theorem kind_of_error (hissue : issue ∈ view.issues standard nest index)
    (herror : issue.severity = .error) : issue.kind = .facesWall ∨ issue.kind = .alongBranch := by
  rcases mem_issues.1 hissue with hwall | halignment | hnest | hocclusion
  · obtain ⟨hit, -, h⟩ := Option.bind_eq_some_iff.1 hwall
    exact Or.inl (kind_of_wallIssue? h)
  · obtain ⟨hit, -, h⟩ := Option.bind_eq_some_iff.1 halignment
    exact Or.inr (kind_of_alignmentIssue? h)
  · obtain ⟨nest, -, h⟩ := Option.bind_eq_some_iff.1 hnest
    rw [severity_of_nestIssue? h] at herror
    exact Severity.noConfusion herror
  · obtain ⟨index, -, h⟩ := Option.bind_eq_some_iff.1 hocclusion
    rw [severity_of_occlusionIssue? h] at herror
    exact Severity.noConfusion herror

/-- The issues of a view come in the order of their flags, and none of them twice. -/
theorem pairwise_bit_issues (standard : ViewStandard α) (view : View α) (nest : Option (Nest α))
    (index : Option (SpatialIndex α)) :
    ((view.issues standard nest index).map (·.kind.bit)).Pairwise (· < ·) := by
  have hkinds := (kinds_sublist standard view nest index).map IssueKind.bit
  rw [List.map_map] at hkinds
  exact view.mode.pairwise_bit_kinds.sublist hkinds

/-- A branch along the view is looked for from the eyes, one in front of the player from behind. -/
theorem kind_ne_playerHidden {other : Issue α} (hissue : issue ∈ view.issues standard nest index)
    (hother : other ∈ view.issues standard nest index) (halong : issue.kind = .alongBranch) :
    other.kind ≠ .playerHidden := by
  intro hhidden
  have hkinds := kinds_sublist standard view nest index
  have hfirst : .alongBranch ∈ view.mode.kinds :=
    hkinds.subset (halong ▸ List.mem_map_of_mem hissue)
  have hthird : .playerHidden ∈ view.mode.kinds :=
    hkinds.subset (hhidden ▸ List.mem_map_of_mem hother)
  cases hmode : view.mode with
  | firstPerson => simp [hmode, CameraMode.kinds] at hthird
  | thirdPerson => simp [hmode, CameraMode.kinds] at hfirst

/-! ### How much can be wrong -/

/-- The subtraction stops at zero, so it makes no difference that the penalties stop at the end of
their range. -/
theorem score_check (standard : ViewStandard α) (view : View α) (nest : Option (Nest α))
    (index : Option (SpatialIndex α)) :
    (view.check standard nest index).score =
      100 - standard.cost (view.issues standard nest index) :=
  standard.score_eq _

/-- What is wrong costs as much as what the nest and the index show alone. -/
theorem cost_issues (standard : ViewStandard α) (view : View α) (nest : Option (Nest α))
    (index : Option (SpatialIndex α)) :
    standard.cost (view.issues standard nest index) =
      standard.cost (view.issues standard nest none) +
        standard.cost (view.issues standard none index) := by
  rw [standard.cost_perm (issues_perm standard view nest index), standard.cost_append]

/-- Only a view with nothing wrong keeps all its points, if whatever is wrong costs some. -/
theorem score_check_eq_hundred_iff (herror : 0 < standard.errorPenalty)
    (hwarning : 0 < standard.warningPenalty) :
    (view.check standard nest index).score = 100 ↔ (view.check standard nest index).isClean := by
  have hclean : (view.check standard nest index).isClean ↔
      standard.cost (view.issues standard nest index) = 0 := by
    rw [ViewStandard.cost_eq_zero_iff herror hwarning]
    exact List.isEmpty_iff
  rw [score_check, hclean]
  omega

/-- Of the four checks, one is for the one mode alone and one for the other. -/
theorem length_issues_le (standard : ViewStandard α) (view : View α) (nest : Option (Nest α))
    (index : Option (SpatialIndex α)) : (view.issues standard nest index).length ≤ 3 := by
  have hthree : view.mode.kinds.length = 3 := by
    cases view.mode <;> rfl
  rw [← List.length_map (·.kind), ← hthree]
  exact (kinds_sublist standard view nest index).length_le

/-- Only what the nearest branch does to a view is an error. -/
theorem count_error_le (standard : ViewStandard α) (view : View α) (nest : Option (Nest α))
    (index : Option (SpatialIndex α)) : (view.check standard nest index).count .error ≤ 2 := by
  -- The errors have different kinds, of the two that errors can have.
  let errors := (view.issues standard nest index).filter (·.severity = .error)
  have hnodup : (errors.map (·.kind)).Nodup :=
    view.mode.nodup_kinds.sublist
      ((List.filter_sublist.map _).trans (kinds_sublist standard view nest index))
  have hkinds : errors.map (·.kind) ⊆ [.facesWall, .alongBranch] := by
    intro kind hkind
    obtain ⟨issue, hissue, rfl⟩ := List.mem_map.1 hkind
    obtain ⟨hmem, herror⟩ := List.mem_filter.1 hissue
    rcases kind_of_error hmem (of_decide_eq_true herror) with h | h
    · rw [h]
      exact List.mem_cons_self
    · rw [h]
      exact List.mem_cons_of_mem _ List.mem_cons_self
  calc (view.check standard nest index).count .error = (errors.map (·.kind)).length := by
        rw [Report.count, List.countP_eq_length_filter, List.length_map]
        rfl
    _ ≤ 2 := (hnodup.subperm hkinds).length_le

/-- By the usual standard, two errors and a warning are the worst that a view can have. -/
theorem le_score_check_standard (view : View α) (nest : Option (Nest α))
    (index : Option (SpatialIndex α)) : 25 ≤ (view.check .standard nest index).score := by
  have herrors := count_error_le .standard view nest index
  have hlength : (view.check .standard nest index).issues.length ≤ 3 :=
    length_issues_le .standard view nest index
  rw [← Report.count_error_add_count_warning] at hlength
  have hcost : (ViewStandard.standard : ViewStandard α).cost (view.issues .standard nest index) =
      (view.check .standard nest index).count .error * 30 +
        (view.check .standard nest index).count .warning * 15 := rfl
  rw [score_check]
  omega

/-- Reports are put together from what the nest and the index show alone, and score what is left of
a hundred points when each error and each warning has cost its own. -/
theorem check_composes (standard : ViewStandard α) (view : View α) (nest : Option (Nest α))
    (index : Option (SpatialIndex α)) :
    (view.check standard nest index).issues.Perm
      ((view.check standard nest none).issues ++ (view.check standard none index).issues) ∧
    ((view.check standard nest index).issues.map (·.kind.bit)).Pairwise (· < ·) ∧
    (∀ issue ∈ (view.check standard nest index).issues,
      ∀ other ∈ (view.check standard nest index).issues,
        issue.kind = .alongBranch → other.kind ≠ .playerHidden) ∧
    (∀ issue ∈ (view.check standard nest index).issues,
      issue.severity = .error → issue.kind = .facesWall ∨ issue.kind = .alongBranch) ∧
    ((view.check standard nest index).score : Int) =
      max 0 (100 - (view.check standard nest index).count .error * standard.errorPenalty -
        (view.check standard nest index).count .warning * standard.warningPenalty) ∧
    (view.check standard nest index).score ≤ (view.check standard nest none).score ∧
    (view.check standard nest index).score ≤ (view.check standard none index).score ∧
    (0 < standard.errorPenalty → 0 < standard.warningPenalty →
      ((view.check standard nest index).score = 100 ↔
        (view.check standard nest index).isClean)) ∧
    25 ≤ (view.check .standard nest index).score := by
  have hcost := cost_issues standard view nest index
  refine ⟨issues_perm standard view nest index, pairwise_bit_issues standard view nest index,
    fun issue hissue other hother => kind_ne_playerHidden hissue hother, fun issue => kind_of_error,
    ?_, ?_, ?_, score_check_eq_hundred_iff, le_score_check_standard view nest index⟩
  · have hvalue : standard.cost (view.issues standard nest index) =
        (view.check standard nest index).count .error * standard.errorPenalty +
          (view.check standard nest index).count .warning * standard.warningPenalty := rfl
    rw [score_check, hvalue]
    omega
  · rw [score_check, score_check]
    omega
  · rw [score_check, score_check]
    omega

/-! ### A view with as much wrong as can be -/

def trunk : Branch Float32 := ⟨.zero, ⟨0.0, 10.0, 0.0⟩, 1.0, 1.0, 0, none⟩

def glade : SpatialIndex Float32 := .build #[] #[trunk] none

def perch : Nest Float32 where
  parent := 0
  position := .zero
  radius := 1.0
  up := .unitY
  orientation := .identity
  anchors := []
  nearView := 1.0
  farView := 1.0
  depth := 1.0

def squeeze : View Float32 := ⟨⟨0.25, 5.0, 0.0⟩, .unitY, .firstPerson, none, 0.0⟩

def harsh : ViewStandard Float32 :=
  { ViewStandard.standard with errorPenalty := maxNat32, warningPenalty := maxNat32 }

/-- The trunk passes through three of the cells around the camera, and is met in each of them. -/
theorem glade_around :
    glade.branchGrid.around (Cell.ofPoint glade.cellSize squeeze.position) 1 = [0, 0, 0] := by
  rw [SpatialIndex.branchGrid_around]
  decide +kernel

theorem squeeze_issues :
    (squeeze.issues harsh (some perch) (some glade)).map
        (fun issue => (issue.kind, issue.severity)) =
      [(.facesWall, .error), (.alongBranch, .error), (.nestUnseen, .warning)] := by
  rw [issues]
  simp only [Option.bind_some, SpatialIndex.nearestBranch?, glade_around]
  decide +kernel

theorem squeeze_count :
    (squeeze.check harsh (some perch) (some glade)).count .error = 2 ∧
      (squeeze.check harsh (some perch) (some glade)).count .warning = 1 := by
  have hcount (severity : Severity) :
      (squeeze.check harsh (some perch) (some glade)).count severity =
        ([.error, .error, .warning] : List Severity).countP (· = severity) := by
    have hmap := congrArg (List.countP fun entry => entry.2 = severity) squeeze_issues
    rw [List.countP_map] at hmap
    exact hmap
  exact ⟨hcount .error, hcount .warning⟩

/-- A view with two errors and a warning scores nothing by the harsh standard, and by the usual one
as little as there can be. -/
theorem squeeze_check_composes :
    0 < harsh.errorPenalty ∧ 0 < harsh.warningPenalty ∧
      (squeeze.check harsh (some perch) (some glade)).score = 0 ∧
      ¬(squeeze.check harsh (some perch) (some glade)).isClean ∧
      (squeeze.check .standard (some perch) (some glade)).score = 25 := by
  have herror : 0 < harsh.errorPenalty := by decide
  have hwarning : 0 < harsh.warningPenalty := by decide
  obtain ⟨-, -, -, -, hscore, -, -, hclean, -⟩ :=
    check_composes harsh squeeze (some perch) (some glade)
  obtain ⟨-, -, -, -, hstandard, -⟩ :=
    check_composes .standard squeeze (some perch) (some glade)
  -- The two standards differ in their penalties only, so they find the same issues.
  have hsame (severity : Severity) :
      (squeeze.check .standard (some perch) (some glade)).count severity =
        (squeeze.check harsh (some perch) (some glade)).count severity := rfl
  rw [hsame, hsame, squeeze_count.1, squeeze_count.2] at hstandard
  rw [squeeze_count.1, squeeze_count.2] at hscore
  have hzero : (squeeze.check harsh (some perch) (some glade)).score = 0 := by
    have hpenalties : harsh.errorPenalty = 4294967295 ∧ harsh.warningPenalty = 4294967295 :=
      ⟨rfl, rfl⟩
    rw [hpenalties.1, hpenalties.2] at hscore
    omega
  refine ⟨herror, hwarning, hzero, ?_, ?_⟩
  · rw [← hclean herror hwarning, hzero]
    decide
  · have hpenalties : (ViewStandard.standard : ViewStandard Float32).errorPenalty = 30 ∧
        (ViewStandard.standard : ViewStandard Float32).warningPenalty = 15 := ⟨rfl, rfl⟩
    rw [hpenalties.1, hpenalties.2] at hstandard
    omega

end View

end Arbor
