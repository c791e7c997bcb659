import Arbor.Index.Nearest
import Arbor.Landmark.Nest

/-! Checks of a camera's view. Each check needs a branch nearby, a nest or an index, and is made on
its own. -/

namespace Arbor

inductive CameraMode
  | firstPerson
  | thirdPerson
  deriving DecidableEq, Repr

structure View (α : Type) where
  position : Vector3 α
  forward : Vector3 α
  mode : CameraMode
  player : Option (Vector3 α)
  sinceChange : α
  deriving DecidableEq, Repr

structure ViewStandard (α : Type) where
  /-- A branch nearer than this multiple of its radius is a wall. -/
  wallFactor : α
  /-- The cosine to a branch's axis above which a view lies along it. -/
  alignmentWarning : α
  alignmentError : α
  /-- The seconds after a change during which the nest has to be in view. -/
  placementWindow : α
  /-- The least cosine to the nest at which it is in view. -/
  nestAlignment : α
  /-- A branch nearer than this multiple of its radius to the line of sight hides the player. -/
  occlusionFactor : α
  minPlayerDistance : α
  errorPenalty : Nat
  warningPenalty : Nat
  deriving DecidableEq, Repr

inductive IssueKind
  | facesWall
  | alongBranch
  | nestUnseen
  | playerHidden
  deriving DecidableEq, Repr

def IssueKind.bit : IssueKind → Nat
  | facesWall => 1
  | alongBranch => 2
  | nestUnseen => 4
  | playerHidden => 8

inductive Severity
  | warning
  | error
  deriving DecidableEq, Repr

structure Issue (α : Type) where
  kind : IssueKind
  severity : Severity
  measured : α
  threshold : α
  deriving DecidableEq, Repr

structure Report (α : Type) where
  score : Nat
  issues : List (Issue α)
  deriving DecidableEq, Repr

namespace ViewStandard

variable {α : Type} [Scalar α]

def standard : ViewStandard α where
  wallFactor := 1.2
  alignmentWarning := 0.95
  alignmentError := 0.98
  placementWindow := 2.0
  nestAlignment := 0.1
  occlusionFactor := 1.5
  minPlayerDistance := 0.01
  errorPenalty := 30
  warningPenalty := 15

def penalty (standard : ViewStandard α) : Severity → Nat
  | .error => standard.errorPenalty
  | .warning => standard.warningPenalty

/-- The penalties of some issues added up, one after the other. A total beyond the unsigned 32-bit
range stays at its end. -/
def totalPenalty (standard : ViewStandard α) (issues : List (Issue α)) : Nat :=
  issues.foldl (fun total issue => min maxNat32 (total + standard.penalty issue.severity)) 0

def score (standard : ViewStandard α) (issues : List (Issue α)) : Nat :=
  100 - standard.totalPenalty issues

end ViewStandard

namespace Report

variable {α : Type}

def flags (report : Report α) : Nat :=
  report.issues.foldl (fun bits issue => bits ||| issue.kind.bit) 0

def hasErrors (report : Report α) : Bool :=
  report.issues.any (·.severity = .error)

def isClean (report : Report α) : Bool :=
  report.issues.isEmpty

end Report

namespace View

variable {α : Type} [Scalar α]

def wallIssue? (standard : ViewStandard α) (hit : BranchHit α) : Option (Issue α) :=
  let radius := hit.branch.meanRadius
  let threshold := radius * standard.wallFactor
  if hit.distance < threshold then
    some ⟨.facesWall, if hit.distance < radius then .error else .warning, hit.distance, threshold⟩
  else none

def alignmentIssue? (standard : ViewStandard α) (view : View α) (hit : BranchHit α) :
    Option (Issue α) :=
  let alignment := Scalar.magnitude (view.forward.dot hit.branch.axis.normalizeOrZero)
  if view.mode = .firstPerson ∧ standard.alignmentWarning < alignment then
    some ⟨.alongBranch, if standard.alignmentError < alignment then .error else .warning,
      alignment, standard.alignmentWarning⟩
  else none

def nestIssue? (standard : ViewStandard α) (view : View α) (nest : Nest α) : Option (Issue α) :=
  let alignment := (nest.position - view.position).normalizeOrZero.dot view.forward
  if view.sinceChange < standard.placementWindow ∧ alignment < standard.nestAlignment then
    some ⟨.nestUnseen, .warning, alignment, standard.nestAlignment⟩
  else none

def occlusionIssue? (standard : ViewStandard α) (view : View α) (index : SpatialIndex α) :
    Option (Issue α) := do
  let player ← view.player
  if view.mode = .thirdPerson ∧ standard.minPlayerDistance < view.position.distance player then
    let hit ← index.nearestBranch? ((view.position + player).scale 0.5)
    let threshold := hit.branch.meanRadius * standard.occlusionFactor
    if hit.distance < threshold then
      some ⟨.playerHidden, .warning, hit.distance, threshold⟩
    else none
  else none

/-- Everything wrong with a view. What needs a nest or an index is not checked without it. -/
def issues (standard : ViewStandard α) (view : View α) (nest : Option (Nest α))
    (index : Option (SpatialIndex α)) : List (Issue α) :=
  let nearest := index.bind fun index => index.nearestBranch? view.position
  [nearest.bind (wallIssue? standard),
    nearest.bind (alignmentIssue? standard view),
    nest.bind (nestIssue? standard view),
    index.bind (occlusionIssue? standard view)].filterMap id

def check (standard : ViewStandard α) (view : View α) (nest : Option (Nest α))
    (index : Option (SpatialIndex α)) : Report α :=
  let issues := view.issues standard nest index
  ⟨standard.score issues, issues⟩

end View

end Arbor
