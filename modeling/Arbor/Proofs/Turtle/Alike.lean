import Arbor.Turtle.Walk

/-! Walks that differ only in what was drawn before. The turtle never looks at what it has drawn but
for its number, so two walks that stand in the same poses draw the same from there on, up to the
numbers of the branches. -/

namespace Arbor

variable {α : Type}

def Branch.renumber (place : Nat → Nat) (branch : Branch α) : Branch α :=
  { branch with parent := branch.parent.map place }

namespace Branch

theorem renumber_eq_self {place : Nat → Nat} {branch : Branch α}
    (h : ∀ j, branch.parent = some j → place j = j) : branch.renumber place = branch := by
  have hparent : branch.parent.map place = branch.parent := by
    cases hbranch : branch.parent with
    | none => rfl
    | some j => rw [Option.map_some, h j hbranch]
  rw [renumber, hparent]

theorem renumber_renumber (place back : Nat → Nat) (branch : Branch α) :
    (branch.renumber place).renumber back = branch.renumber (back ∘ place) := by
  rw [renumber, renumber, renumber, Option.map_map]

theorem map_renumber_eq_self {place : Nat → Nat} {list : List (Branch α)}
    (h : ∀ branch ∈ list, ∀ j, branch.parent = some j → place j = j) :
    list.map (renumber place) = list := by
  have hself : ∀ branch ∈ list, branch.renumber place = branch := fun branch hbranch =>
    renumber_eq_self (h branch hbranch)
  rw [List.map_congr_left hself, List.map_id']

theorem map_renumber_congr {place other : Nat → Nat} {list : List (Branch α)}
    (h : ∀ branch ∈ list, ∀ j, branch.parent = some j → place j = other j) :
    list.map (renumber place) = list.map (renumber other) := by
  refine List.map_congr_left fun branch hbranch => ?_
  rw [renumber, renumber, Option.map_congr fun j hj => h branch hbranch j hj]

theorem map_renumber_renumber (place back : Nat → Nat) (list : List (Branch α)) :
    (list.map (renumber place)).map (renumber back) = list.map (renumber (back ∘ place)) := by
  rw [List.map_map]
  exact List.map_congr_left fun branch _ => renumber_renumber place back branch

end Branch

namespace Turtle

structure Walk.Grows (walk after : Walk α) (drawn : List (Branch α)) (placed : List (Marker α)) :
    Prop where
  branches : after.branches.toList = walk.branches.toList ++ drawn
  markers : after.markers.toList = walk.markers.toList ++ placed

namespace Walk.Grows

variable {walk after last : Walk α} {drawn drawn' : List (Branch α)}
  {placed placed' : List (Marker α)}

theorem of_eq (hbranches : after.branches = walk.branches) (hmarkers : after.markers = walk.markers) :
    walk.Grows after [] [] := by
  constructor
  · rw [hbranches, List.append_nil]
  · rw [hmarkers, List.append_nil]

theorem trans (h : walk.Grows after drawn placed) (h' : after.Grows last drawn' placed') :
    walk.Grows last (drawn ++ drawn') (placed ++ placed') := by
  constructor
  · rw [h'.branches, h.branches, List.append_assoc]
  · rw [h'.markers, h.markers, List.append_assoc]

/-- What a walk has drawn and placed is determined by where it started and ended. -/
theorem unique (h : walk.Grows after drawn placed) (h' : walk.Grows after drawn' placed') :
    drawn' = drawn ∧ placed' = placed := by
  have hbranches := h'.branches
  have hmarkers := h'.markers
  rw [h.branches, List.append_cancel_left_eq] at hbranches
  rw [h.markers, List.append_cancel_left_eq] at hmarkers
  exact ⟨hbranches.symm, hmarkers.symm⟩

theorem size (h : walk.Grows after drawn placed) :
    after.branches.size = walk.branches.size + drawn.length := by
  rw [← Array.length_toList, h.branches, List.length_append, Array.length_toList]

end Walk.Grows

/-- Whether two walks have the turtle in the same pose, now and after each bracket closes, on
branches that a renumbering takes to each other. What they draw next is renumbered likewise. -/
structure Walk.Alike (place : Nat → Nat) (walk other : Walk α) : Prop where
  pose : other.pose = walk.pose
  current : other.current = walk.current.map place
  saved : other.saved = walk.saved.map fun state => (state.1, state.2.map place)
  size : ∀ i, place (walk.branches.size + i) = other.branches.size + i

namespace Walk.Alike

theorem refl (walk : Walk α) : walk.Alike id walk := by
  refine ⟨rfl, ?_, ?_, fun _ => rfl⟩
  · rw [Option.map_id, id]
  · have hid : (fun state : Pose α × Option Nat => (state.1, state.2.map id)) = id := by
      funext state
      rw [Option.map_id]
      rfl
    rw [hid, List.map_id]

variable {place : Nat → Nat} {walk other : Walk α}

theorem adjust (h : walk.Alike place other) (change : Pose α → Pose α) :
    ({ walk with pose := change walk.pose } : Walk α).Alike place
      { other with pose := change other.pose } := by
  have hpose : change other.pose = change walk.pose := congrArg change h.pose
  exact ⟨hpose, h.current, h.saved, h.size⟩

theorem push (h : walk.Alike place other) : walk.push.Alike place other.push := by
  have hpose : other.push.pose = walk.push.pose := by
    rw [Walk.push, Walk.push, h.pose]
  have hsaved : other.push.saved =
      walk.push.saved.map fun state => (state.1, state.2.map place) := by
    rw [Walk.push, Walk.push, List.map_cons, h.pose, h.current, h.saved]
  exact ⟨hpose, h.current, hsaved, h.size⟩

/-- A bracket that closes brings both walks back to states that are alike. -/
theorem pop (h : walk.Alike place other) : walk.pop.Alike place other.pop := by
  have hother := h.saved
  cases hsaved : walk.saved with
  | nil =>
    rw [hsaved, List.map_nil] at hother
    rwa [Walk.pop_of_saved_nil hsaved, Walk.pop_of_saved_nil hother]
  | cons state saved =>
    rw [hsaved, List.map_cons] at hother
    rw [Walk.pop_of_saved_cons hsaved, Walk.pop_of_saved_cons hother]
    exact ⟨rfl, rfl, rfl, h.size⟩

variable [Scalar α]

/-- The branch drawn on the one side is the renumbered one of the other side. -/
theorem draw (h : walk.Alike place other) (length : α) :
    ∃ branch, walk.Grows (walk.draw length) [branch] [] ∧
      other.Grows (other.draw length) [branch.renumber place] [] ∧
      (walk.draw length).Alike place (other.draw length) := by
  -- The new branches have the next free places, which the renumbering takes to each other.
  have hplace : place walk.branches.size = other.branches.size := h.size 0
  have hsize : ∀ i, place ((walk.draw length).branches.size + i) =
      (other.draw length).branches.size + i := by
    intro i
    rw [Walk.draw, Walk.draw, Array.size_push, Array.size_push, Nat.add_assoc, Nat.add_assoc]
    exact h.size (1 + i)
  have hpose : (other.draw length).pose = (walk.draw length).pose := by
    rw [Walk.draw, Walk.draw, h.pose]
  have hcurrent : (other.draw length).current = (walk.draw length).current.map place := by
    rw [Walk.draw, Walk.draw, Option.map_some, hplace]
  refine ⟨_, ⟨Array.toList_push, (List.append_nil _).symm⟩, ⟨?_, (List.append_nil _).symm⟩,
    ⟨hpose, hcurrent, h.saved, hsize⟩⟩
  rw [Walk.draw, Array.toList_push, h.pose, h.current]
  rfl

theorem mark (h : walk.Alike place other) (payload : Word) :
    ∃ marker, walk.Grows (walk.mark payload) [] [marker] ∧
      other.Grows (other.mark payload) [] [marker] ∧
      (walk.mark payload).Alike place (other.mark payload) := by
  refine ⟨_, ⟨(List.append_nil _).symm, Array.toList_push⟩, ⟨(List.append_nil _).symm, ?_⟩,
    ⟨h.pose, h.current, h.saved, h.size⟩⟩
  rw [Walk.mark, Array.toList_push, h.pose]
  rfl

variable [Trig α]

/-- Walks that are alike draw alike by the same instruction, and stay alike. -/
theorem step (h : walk.Alike place other) (angle : α) (i : Instruction) :
    ∃ drawn placed, walk.Grows (walk.step angle i) drawn placed ∧
      other.Grows (other.step angle i) (drawn.map (Branch.renumber place)) placed ∧
      (walk.step angle i).Alike place (other.step angle i) := by
  -- All but two commands leave the branches and the markers as they are.
  have hrest : i.command ≠ .draw → i.command ≠ .mark →
      (walk.step angle i).Alike place (other.step angle i) →
      ∃ drawn placed, walk.Grows (walk.step angle i) drawn placed ∧
        other.Grows (other.step angle i) (drawn.map (Branch.renumber place)) placed ∧
        (walk.step angle i).Alike place (other.step angle i) := by
    intro hdraw hmark halike
    have hgrows : ∀ walk : Walk α, walk.Grows (walk.step angle i) [] [] := fun walk =>
      .of_eq (walk.branches_step_of_ne angle hdraw) (walk.markers_step_of_ne angle hmark)
    exact ⟨[], [], hgrows walk, hgrows other, halike⟩
  obtain ⟨command, payload⟩ := i
  cases command with
  | draw =>
    obtain ⟨branch, hgrows, hgrows', halike⟩ := h.draw (Numeral.valueOr payload 1.0)
    exact ⟨[branch], [], hgrows, hgrows', halike⟩
  | mark =>
    obtain ⟨marker, hgrows, hgrows', halike⟩ := h.mark (payload.getD [])
    exact ⟨[], [marker], hgrows, hgrows', halike⟩
  | move => exact hrest nofun nofun (h.adjust fun pose => pose.advance _)
  | turn about backward => exact hrest nofun nofun (h.adjust fun pose => pose.rotate _ _)
  | width => exact hrest nofun nofun (h.adjust fun pose => { pose with radius := _ })
  | push => exact hrest nofun nofun h.push
  | pop => exact hrest nofun nofun h.pop

/-- Walks that are alike draw alike by the same instructions, and stay alike. -/
theorem run (h : walk.Alike place other) (angle : α) (list : List Instruction) :
    ∃ drawn placed, walk.Grows (walk.run angle list) drawn placed ∧
      other.Grows (other.run angle list) (drawn.map (Branch.renumber place)) placed ∧
      (walk.run angle list).Alike place (other.run angle list) := by
  induction list generalizing walk other with
  | nil => exact ⟨[], [], .of_eq rfl rfl, .of_eq rfl rfl, h⟩
  | cons i list ih =>
    obtain ⟨drawn, placed, hgrows, hgrows', halike⟩ := h.step angle i
    obtain ⟨drawn', placed', hrest, hrest', hend⟩ := ih halike
    refine ⟨drawn ++ drawn', placed ++ placed', hgrows.trans hrest, ?_, hend⟩
    rw [List.map_append]
    exact hgrows'.trans hrest'

end Walk.Alike

/-- A walk never takes back what it has drawn and placed. -/
theorem Walk.grows_run [Scalar α] [Trig α] (walk : Walk α) (angle : α) (list : List Instruction) :
    ∃ drawn placed, walk.Grows (walk.run angle list) drawn placed := by
  obtain ⟨drawn, placed, hgrows, -⟩ := (Walk.Alike.refl walk).run angle list
  exact ⟨drawn, placed, hgrows⟩

end Turtle

end Arbor
