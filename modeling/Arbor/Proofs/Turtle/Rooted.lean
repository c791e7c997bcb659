import Arbor.Turtle.Walk

/-! How a walk hangs together. Wherever the turtle stands, now or after a bracket closes, the branch
it stands on has put it there. What relates the two is left open: whatever relation survives the
instructions of a walk holds between the tip of each branch and the bases of those grown from it. -/

namespace Arbor

variable {α : Type}

structure Foot (α : Type) where
  position : Vector3 α
  radius : α
  depth : Nat

def Branch.baseFoot (branch : Branch α) : Foot α :=
  ⟨branch.base, branch.baseRadius, branch.depth⟩

def Branch.tipFoot (branch : Branch α) : Foot α :=
  ⟨branch.tip, branch.tipRadius, branch.depth⟩

/-- Whether each branch takes over from its parent what a feature says of them, or from a common
start if it has no parent. -/
def Skeleton.Continues {β : Type} (skeleton : Skeleton α) (atBase atTip : Branch α → β)
    (start : β) : Prop :=
  ∀ branch ∈ skeleton.branches, (branch.parent = none → atBase branch = start) ∧
    ∀ j, branch.parent = some j → skeleton.branches[j]?.map atTip = some (atBase branch)

namespace Turtle

def Pose.foot (pose : Pose α) : Foot α :=
  ⟨pose.position, pose.radius, pose.depth⟩

def Instruction.Respects (i : Instruction) (R : Foot α → Foot α → Prop) : Prop :=
  match i.command with
  | .move => ∀ foot position, R foot { foot with position }
  | .width => ∀ foot radius, R foot { foot with radius }
  | .push => ∀ foot, R foot { foot with depth := foot.depth + 1 }
  | _ => True

/-- Only a move without drawing parts the turtle from the branch it stands on. -/
theorem respects_position {i : Instruction} (h : i.command ≠ .move) :
    i.Respects fun a b : Foot α => a.position = b.position := by
  obtain ⟨command, payload⟩ := i
  cases command with
  | move => exact absurd rfl h
  | width => exact fun _ _ => rfl
  | push => exact fun _ => rfl
  | _ => trivial

/-- Only a width command makes the turtle thicker or thinner than the tip it stands on. -/
theorem respects_radius {i : Instruction} (h : i.command ≠ .width) :
    i.Respects fun a b : Foot α => a.radius = b.radius := by
  obtain ⟨command, payload⟩ := i
  cases command with
  | move => exact fun _ _ => rfl
  | width => exact absurd rfl h
  | push => exact fun _ => rfl
  | _ => trivial

variable [Scalar α]

def footOn? (branches : Array (Branch α)) : Option Nat → Option (Foot α)
  | none => some Pose.start.foot
  | some i => branches[i]?.map Branch.tipFoot

def Foothold (R : Foot α → Foot α → Prop) (branches : Array (Branch α)) (support : Option Nat)
    (foot : Foot α) : Prop :=
  ∃ before, footOn? branches support = some before ∧ R before foot

/-- Whether the turtle has a foothold, now and after each bracket closes, and every branch has one
on an earlier branch. -/
structure Walk.IsRooted (R : Foot α → Foot α → Prop) (walk : Walk α) : Prop where
  current : Foothold R walk.branches walk.current walk.pose.foot
  saved : ∀ state ∈ walk.saved, Foothold R walk.branches state.2 state.1.foot
  branches : ∀ (i : Nat) (branch : Branch α), walk.branches[i]? = some branch →
    (∀ j, branch.parent = some j → j < i) ∧ Foothold R walk.branches branch.parent branch.baseFoot

variable {R : Foot α → Foot α → Prop}

namespace Foothold

variable {branches : Array (Branch α)} {support : Option Nat}

/-- Drawing takes no foothold away. -/
theorem push {foot : Foot α} (h : Foothold R branches support foot) (branch : Branch α) :
    Foothold R (branches.push branch) support foot := by
  obtain ⟨before, hbefore, hrelated⟩ := h
  refine ⟨before, ?_, hrelated⟩
  cases support with
  | none => exact hbefore
  | some i =>
    obtain ⟨other, hother, htip⟩ := Option.map_eq_some_iff.1 hbefore
    obtain ⟨hlt, -⟩ := Array.getElem?_eq_some_iff.1 hother
    have hkept : (branches.push branch)[i]? = some other := by
      rw [Array.getElem?_push_lt hlt, ← Array.getElem?_eq_getElem hlt]
      exact hother
    rw [footOn?, hkept, Option.map_some, htip]

theorem lt_size {i : Nat} {foot : Foot α} (h : Foothold R branches (some i) foot) :
    i < branches.size := by
  obtain ⟨before, hbefore, -⟩ := h
  obtain ⟨branch, hbranch, -⟩ := Option.map_eq_some_iff.1 hbefore
  exact (Array.getElem?_eq_some_iff.1 hbranch).1

end Foothold

namespace Walk.IsRooted

variable {walk : Walk α}

theorem start (hrefl : ∀ foot, R foot foot) : (Walk.start : Walk α).IsRooted R :=
  ⟨⟨_, rfl, hrefl _⟩, nofun, nofun⟩

/-- Every branch comes after the one it grows from. -/
theorem parent_lt (h : walk.IsRooted R) {i j : Nat} {branch : Branch α}
    (hbranch : walk.branches[i]? = some branch) (hparent : branch.parent = some j) : j < i :=
  (h.branches i branch hbranch).1 j hparent

theorem parent_lt_size (h : walk.IsRooted R) {j : Nat} {branch : Branch α}
    (hbranch : branch ∈ walk.branches.toList) (hparent : branch.parent = some j) :
    j < walk.branches.size := by
  obtain ⟨i, hi, rfl⟩ := Array.mem_iff_getElem.1 (Array.mem_toList_iff.1 hbranch)
  have hlt : j < i := h.parent_lt (Array.getElem?_eq_getElem hi) hparent
  exact Nat.lt_trans hlt hi

/-- The branch that the turtle stands on has been drawn. -/
theorem current_lt (h : walk.IsRooted R) {i : Nat} (hcurrent : walk.current = some i) :
    i < walk.branches.size := by
  have hfoothold := h.current
  rw [hcurrent] at hfoothold
  exact hfoothold.lt_size

theorem saved_lt (h : walk.IsRooted R) {state : Pose α × Option Nat} (hstate : state ∈ walk.saved)
    {i : Nat} (hcurrent : state.2 = some i) : i < walk.branches.size := by
  have hfoothold := h.saved state hstate
  rw [hcurrent] at hfoothold
  exact hfoothold.lt_size

theorem pop (h : walk.IsRooted R) : walk.pop.IsRooted R := by
  cases hsaved : walk.saved with
  | nil => rwa [Walk.pop_of_saved_nil hsaved]
  | cons state saved =>
    -- What comes back is one of the saved states, which had their footholds all along.
    have hstates := h.saved
    rw [hsaved, List.forall_mem_cons] at hstates
    rw [Walk.pop_of_saved_cons hsaved]
    exact ⟨hstates.1, hstates.2, h.branches⟩

/-- The new branch takes over the turtle's foothold, and the turtle stands on its tip. -/
theorem draw (h : walk.IsRooted R) (hrefl : ∀ foot, R foot foot) (length : α) :
    (walk.draw length).IsRooted R := by
  refine ⟨?_, ?_, ?_⟩
  · refine ⟨_, ?_, hrefl _⟩
    rw [Walk.draw, footOn?, Array.getElem?_push_size]
    rfl
  · intro state hstate
    exact (h.saved state hstate).push _
  · intro i branch hbranch
    rw [Walk.draw, Array.getElem?_push] at hbranch
    split at hbranch
    case isTrue hi =>
      -- The new branch grows from the one that the turtle stood on.
      obtain rfl := Option.some.inj hbranch
      refine ⟨?_, h.current.push _⟩
      intro j hj
      rw [hi]
      exact h.current_lt hj
    case isFalse =>
      obtain ⟨hbefore, hfoothold⟩ := h.branches i branch hbranch
      exact ⟨hbefore, hfoothold.push _⟩

variable (hrefl : ∀ foot, R foot foot) (htrans : ∀ a b c, R a b → R b c → R a c)
include htrans

/-- The turtle may change its pose where it stands, if the new foot is related to the old one. -/
theorem withPose (h : walk.IsRooted R) {pose : Pose α} (hpose : R walk.pose.foot pose.foot) :
    ({ walk with pose } : Walk α).IsRooted R := by
  obtain ⟨before, hbefore, hrelated⟩ := h.current
  exact ⟨⟨before, hbefore, htrans _ _ _ hrelated hpose⟩, h.saved, h.branches⟩

theorem push (h : walk.IsRooted R)
    (hpush : ∀ foot : Foot α, R foot { foot with depth := foot.depth + 1 }) :
    walk.push.IsRooted R := by
  have hdeeper : ({ walk with pose := { walk.pose with depth := walk.pose.depth + 1 } } :
      Walk α).IsRooted R := h.withPose htrans (hpush walk.pose.foot)
  refine ⟨hdeeper.current, ?_, h.branches⟩
  intro state hstate
  rcases List.mem_cons.1 hstate with rfl | hstate
  · exact h.current
  · exact h.saved state hstate

variable [Trig α]
include hrefl

/-- An instruction that respects a relation keeps a walk rooted in it. -/
theorem step (h : walk.IsRooted R) (angle : α) {i : Instruction} (hi : i.Respects R) :
    (walk.step angle i).IsRooted R := by
  obtain ⟨command, payload⟩ := i
  cases command with
  | draw => exact h.draw hrefl _
  | move => exact h.withPose htrans (hi walk.pose.foot _)
  | turn about backward => exact h.withPose htrans (hrefl walk.pose.foot)
  | width => exact h.withPose htrans (hi walk.pose.foot _)
  | mark => exact ⟨h.current, h.saved, h.branches⟩
  | push => exact h.push htrans hi
  | pop => exact h.pop

/-- Instructions that respect a relation keep a walk rooted in it. -/
theorem run (h : walk.IsRooted R) (angle : α) {list : List Instruction}
    (hlist : ∀ i ∈ list, i.Respects R) : (walk.run angle list).IsRooted R := by
  induction list generalizing walk with
  | nil => exact h
  | cons i list ih =>
    rw [List.forall_mem_cons] at hlist
    rw [run_cons]
    exact ih (h.step hrefl htrans angle hlist.1) hlist.2

end Walk.IsRooted

/-! ### What branches take over -/

def Walk.Carries {β : Type} (walk : Walk α) (feature : Foot α → β) : Prop :=
  walk.IsRooted fun a b => feature a = feature b

namespace Walk.Carries

variable {β : Type} {walk : Walk α} {feature : Foot α → β}

theorem start : (Walk.start : Walk α).Carries feature :=
  IsRooted.start fun _ => rfl

theorem run [Trig α] (h : walk.Carries feature) (angle : α) {list : List Instruction}
    (hlist : ∀ i ∈ list, i.Respects fun a b => feature a = feature b) :
    (walk.run angle list).Carries feature := by
  have hrefl : ∀ foot : Foot α, feature foot = feature foot := fun _ => rfl
  have htrans : ∀ a b c : Foot α, feature a = feature b → feature b = feature c →
      feature a = feature c := fun _ _ _ hab hbc => hab.trans hbc
  exact IsRooted.run hrefl htrans h angle hlist

/-- A feature that a walk carries goes on from parent to child in what it has drawn. -/
theorem continues (h : walk.Carries feature) :
    walk.skeleton.Continues (fun branch => feature branch.baseFoot)
      (fun branch => feature branch.tipFoot) (feature Pose.start.foot) := by
  intro branch hbranch
  obtain ⟨i, hi, rfl⟩ := Array.mem_iff_getElem.1 hbranch
  obtain ⟨-, before, hbefore, hfeature⟩ := IsRooted.branches h i _ (Array.getElem?_eq_getElem hi)
  constructor
  · intro hparent
    rw [hparent, footOn?, Option.some_inj] at hbefore
    rw [hbefore]
    exact hfeature.symm
  · intro j hparent
    rw [hparent] at hbefore
    obtain ⟨parent, hj, rfl⟩ := Option.map_eq_some_iff.1 hbefore
    have hplace : walk.skeleton.branches[j]? = some parent := hj
    rw [hplace, Option.map_some]
    exact congrArg some hfeature

end Walk.Carries

abbrev Walk.IsJoined (walk : Walk α) : Prop :=
  walk.Carries Foot.position

namespace Walk.IsJoined

variable {walk : Walk α}

theorem start : (Walk.start : Walk α).IsJoined :=
  Carries.start

theorem run [Trig α] (h : walk.IsJoined) (angle : α) {list : List Instruction}
    (hlist : ∀ i ∈ list, i.command ≠ .move) : (walk.run angle list).IsJoined :=
  Carries.run h angle fun i hi => respects_position (hlist i hi)

/-- Every branch begins where its parent ends. -/
theorem branches (h : walk.IsJoined) : ∀ branch ∈ walk.branches, ∀ i, branch.parent = some i →
    walk.branches[i]?.map (·.tip) = some branch.base :=
  fun branch hbranch => (h.continues branch hbranch).2

end Walk.IsJoined

/-- No branch lies less deep than the one it grew from. -/
theorem Walk.isRooted_depth [Trig α] (angle : α) (list : List Instruction) :
    (Walk.start.run angle list).IsRooted fun a b => a.depth ≤ b.depth := by
  have hrefl : ∀ foot : Foot α, foot.depth ≤ foot.depth := fun _ => Nat.le_refl _
  have htrans : ∀ a b c : Foot α, a.depth ≤ b.depth → b.depth ≤ c.depth → a.depth ≤ c.depth :=
    fun _ _ _ hab hbc => Nat.le_trans hab hbc
  have hlist : ∀ i ∈ list, i.Respects fun a b : Foot α => a.depth ≤ b.depth := by
    rintro ⟨command, payload⟩ -
    cases command with
    | move => exact fun foot _ => hrefl foot
    | width => exact fun foot _ => hrefl foot
    | push => exact fun foot => Nat.le_succ foot.depth
    | _ => trivial
  exact (Walk.IsRooted.start hrefl).run hrefl htrans angle hlist

end Turtle

end Arbor
