import Mathlib.Logic.Equiv.Defs
import Arbor.Proofs.Space.Bounds
import Arbor.Proofs.Turtle.Bracket

/-! Two blocks in brackets, one behind the other. The turtle draws both from where it stands before
them, so that in either order they make the same tree, but for the numbers of the branches. -/

namespace Arbor

/-! ### Blocks that change places -/

/-- The place that an entry of a list gets when, behind the first `start` entries, a block of
`first` entries changes places with the block of `second` entries behind it. -/
def blockPlace (start first second place : Nat) : Nat :=
  if place < start then place
  else if place < start + first then place + second
  else if place < start + first + second then place - first
  else place

section

variable {start first second place : Nat}

theorem blockPlace_of_lt (h : place < start) : blockPlace start first second place = place :=
  if_pos h

theorem blockPlace_of_le_of_lt (h : start ≤ place) (h' : place < start + first) :
    blockPlace start first second place = place + second := by
  rw [blockPlace, if_neg (Nat.not_lt.2 h), if_pos h']

theorem blockPlace_of_le (h : start + first + second ≤ place) :
    blockPlace start first second place = place := by
  grind [blockPlace]

/-- Exchanging the blocks once more puts everything back. -/
theorem blockPlace_blockPlace (start first second place : Nat) :
    blockPlace start second first (blockPlace start first second place) = place := by
  grind [blockPlace]

/-- The place that an entry gets is where it is found after the exchange. -/
theorem getElem?_blockPlace {β : Type} (before first second after : List β) (place : Nat) :
    (before ++ second ++ first ++ after)[
        blockPlace before.length first.length second.length place]? =
      (before ++ first ++ second ++ after)[place]? := by
  simp only [blockPlace, List.getElem?_append, List.length_append]
  grind

theorem mem_blocks_iff {β : Type} (entry : β) (before first second after : List β) :
    entry ∈ before ++ first ++ second ++ after ↔ entry ∈ before ++ second ++ first ++ after := by
  simp only [List.append_assoc, List.mem_append]
  rw [or_left_comm (a := entry ∈ first)]

end

def blockExchange (start first second : Nat) : Equiv.Perm Nat where
  toFun := blockPlace start first second
  invFun := blockPlace start second first
  left_inv := blockPlace_blockPlace start first second
  right_inv := blockPlace_blockPlace start second first

/-! ### Trees in another order -/

namespace Skeleton

variable {α : Type} {skeleton other : Skeleton α} {place : Equiv.Perm Nat}

structure IsRenumbered (skeleton other : Skeleton α) (place : Equiv.Perm Nat) : Prop where
  size : other.branches.size = skeleton.branches.size
  branch : ∀ i, other.branches[place i]? = skeleton.branches[i]?.map (Branch.renumber place)

namespace IsRenumbered

/-- A renumbering can be read in either direction. -/
theorem symm (h : skeleton.IsRenumbered other place) :
    other.IsRenumbered skeleton place.symm := by
  refine ⟨h.size.symm, fun i => ?_⟩
  have hback : Branch.renumber place.symm ∘ Branch.renumber place =
      (id : Branch α → Branch α) := by
    funext branch
    rw [Function.comp, Branch.renumber_renumber, Equiv.symm_comp_self]
    exact Branch.renumber_eq_self fun _ _ => rfl
  have hplace := h.branch (place.symm i)
  rw [Equiv.apply_symm_apply] at hplace
  rw [hplace, Option.map_map, hback, Option.map_id, id]

theorem points_subset (h : skeleton.IsRenumbered other place)
    (hmarkers : skeleton.markers.toList ⊆ other.markers.toList) :
    skeleton.points ⊆ other.points := by
  intro p hp
  rw [points, List.mem_append, List.mem_flatMap, List.mem_map] at hp ⊢
  rcases hp with ⟨branch, hbranch, hend⟩ | ⟨marker, hmarker, heq⟩
  · obtain ⟨i, hi⟩ := List.mem_iff_getElem?.1 hbranch
    have hplace := h.branch i
    rw [← Array.getElem?_toList, ← Array.getElem?_toList, hi, Option.map_some] at hplace
    -- The renumbered branch has the same two ends.
    exact Or.inl ⟨_, List.mem_of_getElem? hplace, hend⟩
  · exact Or.inr ⟨marker, hmarkers hmarker, heq⟩

/-- What has the same branches and markers has the same bounds. -/
theorem bounds_agree [Scalar α] [Scalar.IsOrdered α] (h : skeleton.IsRenumbered other place)
    (hmarkers : ∀ marker, marker ∈ skeleton.markers.toList ↔ marker ∈ other.markers.toList)
    (hnumber : ∀ p ∈ skeleton.points, p.IsNumber) : skeleton.bounds.Agree other.bounds := by
  have hforth : skeleton.points ⊆ other.points :=
    h.points_subset fun marker => (hmarkers marker).1
  have hback : other.points ⊆ skeleton.points :=
    h.symm.points_subset fun marker => (hmarkers marker).2
  exact Skeleton.bounds_agree (fun p => ⟨fun hp => hforth hp, fun hp => hback hp⟩) hnumber

end IsRenumbered

end Skeleton

namespace Turtle

variable {α : Type} [Scalar α] {walk after after' back back' last last' : Walk α}
  {drawn drawn' rest : List (Branch α)} {placed placed' placedRest : List (Marker α)}
  {R R' : Foot α → Foot α → Prop}

/-- Where two blocks are drawn in either order, and the same thing behind them, the two trees are
the same, but for the numbers of the branches. -/
theorem Walk.Grows.isRenumbered (hroot : walk.IsRooted R) {place : Equiv.Perm Nat}
    (hplace : place = blockExchange walk.branches.size drawn.length drawn'.length)
    (hleft : walk.Grows after drawn placed)
    (hback : after.Grows back (drawn'.map (Branch.renumber place.symm)) placed')
    (hlast : back.Grows last rest placedRest)
    (hright : walk.Grows after' drawn' placed')
    (hback' : after'.Grows back' (drawn.map (Branch.renumber place)) placed)
    (hlast' : back'.Grows last' (rest.map (Branch.renumber place)) placedRest) :
    last.skeleton.IsRenumbered last'.skeleton place := by
  have hbranches : last.branches.toList =
      walk.branches.toList ++ drawn ++ drawn'.map (Branch.renumber place.symm) ++ rest := by
    rw [hlast.branches, hback.branches, hleft.branches]
  have hbranches' : last'.branches.toList = walk.branches.toList ++ drawn' ++
      drawn.map (Branch.renumber place) ++ rest.map (Branch.renumber place) := by
    rw [hlast'.branches, hback'.branches, hright.branches]
  have hold : walk.branches.toList.map (Branch.renumber place) = walk.branches.toList := by
    apply Branch.map_renumber_eq_self
    intro branch hbranch j hj
    rw [hplace]
    exact blockPlace_of_lt (hroot.parent_lt_size hbranch hj)
  -- What the second block draws behind the first one gets back its own numbers.
  have hnew : (drawn'.map (Branch.renumber place.symm)).map (Branch.renumber place) = drawn' := by
    rw [Branch.map_renumber_renumber, Equiv.self_comp_symm]
    exact Branch.map_renumber_eq_self fun _ _ _ _ => rfl
  -- The first tree, renumbered, has the two blocks in their old order.
  have hmoved : last.branches.toList.map (Branch.renumber place) = walk.branches.toList ++
      drawn.map (Branch.renumber place) ++ drawn' ++ rest.map (Branch.renumber place) := by
    rw [hbranches, List.map_append, List.map_append, List.map_append, hold, hnew]
  constructor
  · have hlength := congrArg List.length hbranches
    have hlength' := congrArg List.length hbranches'
    simp only [List.length_append, List.length_map, Array.length_toList] at hlength hlength'
    rw [Walk.skeleton, Walk.skeleton, hlength, hlength', Nat.add_right_comm walk.branches.size]
  · intro i
    have hblock := getElem?_blockPlace walk.branches.toList (drawn.map (Branch.renumber place))
      drawn' (rest.map (Branch.renumber place)) i
    rw [← hmoved, ← hbranches', List.length_map, List.getElem?_map, Array.getElem?_toList,
      Array.getElem?_toList, Array.length_toList] at hblock
    subst hplace
    exact hblock

variable [Trig α] {angle : α} {left right : List Instruction}

/-- Behind a block in brackets another one draws what it would have drawn in its place. -/
theorem Walk.Grows.bracket
    (hleft : walk.Grows (walk.run angle (Instruction.bracket left)) drawn placed)
    (hright : walk.Grows (walk.run angle (Instruction.bracket right)) drawn' placed')
    (hbalanced : IsBalanced (left.map (·.command))) (hroot : walk.IsRooted R)
    (hroot' : (walk.run angle (Instruction.bracket right)).IsRooted R') :
    (walk.run angle (Instruction.bracket left)).Grows
      (walk.run angle (Instruction.bracket left ++ Instruction.bracket right))
      (drawn'.map (Branch.renumber (blockPlace walk.branches.size drawn'.length drawn.length)))
      placed' := by
  have hback := Walk.run_bracket_resumes walk angle hbalanced
  obtain ⟨drawn'', placed'', hgrows, hgrows', -⟩ :=
    (hback.alike hroot).run angle (Instruction.bracket right)
  obtain ⟨rfl, rfl⟩ := hright.unique hgrows
  -- The block's own branches and what was drawn before have the only parents there are.
  have hplace : ∀ branch ∈ drawn'', ∀ j, branch.parent = some j →
      walk.skeleton.openGap (walk.run angle (Instruction.bracket left)).skeleton j =
        blockPlace walk.branches.size drawn''.length drawn.length j := by
    intro branch hbranch j hj
    have hmem : branch ∈ (walk.run angle (Instruction.bracket right)).branches.toList := by
      rw [hright.branches]
      exact List.mem_append_right _ hbranch
    have hlt := hroot'.parent_lt_size hmem hj
    rw [hright.size] at hlt
    rcases Nat.lt_or_ge j walk.branches.size with hbefore | hbehind
    · rw [Skeleton.openGap_of_lt hbefore, blockPlace_of_lt hbefore]
    · have hsize : (walk.run angle (Instruction.bracket left)).skeleton.branches.size =
          walk.skeleton.branches.size + drawn.length := hleft.size
      rw [Skeleton.openGap_of_le hbehind, blockPlace_of_le_of_lt hbehind hlt, hsize,
        Nat.add_sub_cancel_left]
  rw [← Branch.map_renumber_congr hplace, Walk.run_append]
  exact hgrows'

/-- Behind two blocks in brackets the turtle goes on in the same way, whichever comes first. -/
theorem Walk.Grows.alike_brackets
    (hleft : walk.Grows (walk.run angle (Instruction.bracket left)) drawn placed)
    (hright : walk.Grows (walk.run angle (Instruction.bracket right)) drawn' placed')
    (hbalanced : IsBalanced (left.map (·.command)))
    (hbalanced' : IsBalanced (right.map (·.command))) (hroot : walk.IsRooted R)
    (hroot' : (walk.run angle (Instruction.bracket left)).IsRooted R)
    (hroot'' : (walk.run angle (Instruction.bracket right)).IsRooted R) :
    (walk.run angle (Instruction.bracket left ++ Instruction.bracket right)).Alike
      (blockPlace walk.branches.size drawn.length drawn'.length)
      (walk.run angle (Instruction.bracket right ++ Instruction.bracket left)) := by
  have hresumes : ∀ {block block' : List Instruction}, IsBalanced (block.map (·.command)) →
      IsBalanced (block'.map (·.command)) →
      (walk.run angle (Instruction.bracket block ++ Instruction.bracket block')).Resumes walk := by
    intro block block' hblock hblock'
    rw [Walk.run_append]
    exact (walk.run_bracket_resumes angle hblock).trans (Walk.run_bracket_resumes _ angle hblock')
  -- Either way as many branches have been drawn, so the next free place is the same.
  have hsize := (hleft.trans (hleft.bracket hright hbalanced hroot hroot'')).size
  have hsize' := (hright.trans (hright.bracket hleft hbalanced' hroot hroot')).size
  rw [List.length_append, List.length_map] at hsize hsize'
  refine (hresumes hbalanced hbalanced').alike_of_resumes (hresumes hbalanced' hbalanced) hroot
    (fun _ hi => blockPlace_of_lt hi) fun i => ?_
  rw [blockPlace_of_le (by omega)]
  omega

/-- A walk over two bracketed blocks goes on from the walk over what stands before them. -/
theorem Walk.run_append_brackets (walk : Walk α) (angle : α) {first left right : Word}
    (hfirst : first.IsSelfContained) (hleft : left.IsSelfContained)
    (hright : right.IsSelfContained) (last : Word) :
    walk.run angle (instructions (first ++ left.bracket ++ right.bracket ++ last)) =
      ((walk.run angle (instructions first)).run angle
        (Instruction.bracket (instructions left) ++
          Instruction.bracket (instructions right))).run angle (instructions last) := by
  rw [List.append_assoc _ right.bracket, walk.run_append_bracket_append angle hfirst hleft,
    walk.run_append_bracket angle hfirst hleft, instructions_bracket_append hright last,
    Walk.run_append, Walk.run_append]

/-- Two blocks in brackets, one behind the other, draw the same tree in either order. The branches
are the same up to a renumbering, which exchanges those of the two blocks and takes parents along.
The markers of the two blocks change places. The bounds are equal unless some coordinate is no
number. -/
theorem interpret_exchange_brackets [Scalar.IsOrdered α] (angle : α) {first left right : Word}
    (last : Word) (hfirst : first.IsSelfContained) (hleft : left.IsSelfContained)
    (hright : right.IsSelfContained)
    (hbalanced : IsBalanced ((instructions left).map (·.command)))
    (hbalanced' : IsBalanced ((instructions right).map (·.command))) :
    (interpret angle (first ++ left.bracket ++ right.bracket ++ last)).IsRenumbered
        (interpret angle (first ++ right.bracket ++ left.bracket ++ last))
        (blockExchange (interpret angle first).branches.size
          ((interpret angle (first ++ left.bracket)).branches.size -
            (interpret angle first).branches.size)
          ((interpret angle (first ++ right.bracket)).branches.size -
            (interpret angle first).branches.size)) ∧
      (∃ inLeft inRight after : List (Marker α),
        (interpret angle (first ++ left.bracket)).markers.toList =
          (interpret angle first).markers.toList ++ inLeft ∧
        (interpret angle (first ++ right.bracket)).markers.toList =
          (interpret angle first).markers.toList ++ inRight ∧
        (interpret angle (first ++ left.bracket ++ right.bracket ++ last)).markers.toList =
          (interpret angle first).markers.toList ++ inLeft ++ inRight ++ after ∧
        (interpret angle (first ++ right.bracket ++ left.bracket ++ last)).markers.toList =
          (interpret angle first).markers.toList ++ inRight ++ inLeft ++ after) ∧
      ((∀ p ∈ (interpret angle (first ++ left.bracket ++ right.bracket ++ last)).points,
          p.IsNumber) →
        (interpret angle (first ++ left.bracket ++ right.bracket ++ last)).bounds.Agree
          (interpret angle (first ++ right.bracket ++ left.bracket ++ last)).bounds) := by
  have hroot : ∀ list : List Instruction, (Walk.start.run angle list).IsRooted
      fun a b : Foot α => a.depth ≤ b.depth := Walk.isRooted_depth angle
  -- Each of the walks goes on from the one over the first piece.
  have hrootLeft := hroot (instructions (first ++ left.bracket))
  have hrootRight := hroot (instructions (first ++ right.bracket))
  rw [Walk.run_append_bracket _ angle hfirst hleft] at hrootLeft
  rw [Walk.run_append_bracket _ angle hfirst hright] at hrootRight
  obtain ⟨drawn, placed, hgrows⟩ := (Walk.start.run angle (instructions first)).grows_run angle
    (Instruction.bracket (instructions left))
  obtain ⟨drawn', placed', hgrows'⟩ := (Walk.start.run angle (instructions first)).grows_run angle
    (Instruction.bracket (instructions right))
  have hback := hgrows.bracket hgrows' hbalanced (hroot _) hrootRight
  have hback' := hgrows'.bracket hgrows hbalanced' (hroot _) hrootLeft
  obtain ⟨rest, after, hlast, hlast', -⟩ := (hgrows.alike_brackets hgrows' hbalanced hbalanced'
    (hroot _) hrootLeft hrootRight).run angle (instructions last)
  have hrenumbered := Walk.Grows.isRenumbered (hroot _) rfl hgrows hback hlast hgrows' hback' hlast'
  have hmarkers := hlast.markers
  have hmarkers' := hlast'.markers
  rw [hback.markers, hgrows.markers] at hmarkers
  rw [hback'.markers, hgrows'.markers] at hmarkers'
  -- What the two blocks draw can be counted in the trees without the other one.
  have hcount := Nat.sub_eq_of_eq_add' hgrows.size
  have hcount' := Nat.sub_eq_of_eq_add' hgrows'.size
  have hmem := fun marker : Marker α => mem_blocks_iff marker
    (Walk.start.run angle (instructions first)).markers.toList placed placed' after
  unfold interpret
  rw [Walk.run_append_bracket _ angle hfirst hleft, Walk.run_append_bracket _ angle hfirst hright,
    Walk.run_append_brackets _ angle hfirst hleft hright,
    Walk.run_append_brackets _ angle hfirst hright hleft]
  simp only [← hmarkers, ← hmarkers'] at hmem
  unfold Walk.skeleton at hrenumbered ⊢
  refine ⟨?_, ⟨placed, placed', after, hgrows.markers, hgrows'.markers, hmarkers, hmarkers'⟩,
    hrenumbered.bounds_agree hmem⟩
  rw [hcount, hcount']
  exact hrenumbered

def twig : Word := ['G', '[', '@', '(', 'f', ':', 'a', ')', ']']

def leaf : Word := ['@', '(', 'd', ':', 'b', ')', '!', 'F']

/-- Two blocks of one branch each, behind a stem and before a crown. -/
theorem twig_leaf_interpret_exchange :
    stem.IsSelfContained ∧ twig.IsSelfContained ∧ leaf.IsSelfContained ∧
      IsBalanced ((instructions twig).map (·.command)) ∧
      IsBalanced ((instructions leaf).map (·.command)) ∧
      (interpret (25.0 : Float32) (stem ++ twig.bracket ++ leaf.bracket ++ crown)).IsRenumbered
        (interpret 25.0 (stem ++ leaf.bracket ++ twig.bracket ++ crown))
        (blockExchange 1 1 1) ∧
      (∀ p ∈ (interpret (25.0 : Float32) (stem ++ twig.bracket ++ leaf.bracket ++ crown)).points,
        p.IsNumber) ∧
      (interpret (25.0 : Float32) (stem ++ twig.bracket ++ leaf.bracket ++ crown)).bounds.Agree
        (interpret 25.0 (stem ++ leaf.bracket ++ twig.bracket ++ crown)).bounds := by
  have hstem : stem.IsSelfContained := by decide
  have htwig : twig.IsSelfContained := by decide
  have hleaf : leaf.IsSelfContained := by decide
  have hbalanced : IsBalanced ((instructions twig).map (·.command)) := by decide +kernel
  have hbalanced' : IsBalanced ((instructions leaf).map (·.command)) := by decide +kernel
  have hnumber : ∀ p ∈ (interpret (25.0 : Float32)
      (stem ++ twig.bracket ++ leaf.bracket ++ crown)).points, p.IsNumber := by decide +kernel
  have hbefore : (interpret (25.0 : Float32) stem).branches.size = 1 := by decide +kernel
  have hbehind : (interpret (25.0 : Float32) (stem ++ twig.bracket)).branches.size = 2 := by
    decide +kernel
  have hbehind' : (interpret (25.0 : Float32) (stem ++ leaf.bracket)).branches.size = 2 := by
    decide +kernel
  obtain ⟨hrenumbered, -, hbounds⟩ :=
    interpret_exchange_brackets (25.0 : Float32) crown hstem htwig hleaf hbalanced hbalanced'
  rw [hbefore, hbehind, hbehind'] at hrenumbered
  exact ⟨hstem, htwig, hleaf, hbalanced, hbalanced', hrenumbered, hnumber, hbounds hnumber⟩

end Turtle

end Arbor
