import Mathlib.Data.List.Forall2
import Arbor.Proofs.Blueprint.Parts
import Arbor.Proofs.Blueprint.Steps
import Arbor.Turtle.Walk

/-! What a walk draws while it carries out the steps of a hierarchy. The branches come in the order
of the parts, each behind the branch of the part it grows from, and the markers in the order of
the leaves. -/

namespace Arbor

namespace TreePart

def AtDepth (depth : Nat) : TreePart → Prop
  | limb address => depth = address.length
  | trunk address => depth = address.length
  | twig _ _ => True

def Numbered (number : TreePart → Nat) (start : Nat) (parts : List TreePart) : Prop :=
  ∀ i part, parts[i]? = some part → number part = start + i

variable {number : TreePart → Nat} {start : Nat}

theorem Numbered.head {part : TreePart} {parts : List TreePart}
    (h : Numbered number start (part :: parts)) : number part = start :=
  h 0 part rfl

theorem Numbered.left {first second : List TreePart} (h : Numbered number start (first ++ second)) :
    Numbered number start first := by
  intro i part hi
  obtain ⟨hlt, -⟩ := List.getElem?_eq_some_iff.1 hi
  exact h i part (by rwa [List.getElem?_append_left hlt])

theorem Numbered.right {first second : List TreePart}
    (h : Numbered number start (first ++ second)) :
    Numbered number (start + first.length) second := by
  intro i part hi
  have hright : (first ++ second)[first.length + i]? = some part := by
    rwa [List.getElem?_append_right (Nat.le_add_right _ _), Nat.add_sub_cancel_left]
  rw [h _ part hright, Nat.add_assoc]

/-- Parts that stand only once are numbered from zero by their places in the list. -/
theorem numbered_idxOf {parts : List TreePart} (h : parts.Nodup) :
    Numbered parts.idxOf 0 parts := by
  intro i part hi
  obtain ⟨hlt, rfl⟩ := List.getElem?_eq_some_iff.1 hi
  rw [Nat.zero_add]
  exact h.idxOf_getElem i hlt

end TreePart

open TreePart Turtle

variable {α : Type}

structure Fits (number : TreePart → Nat) (part : TreePart) (branch : Branch α) : Prop where
  parent_eq : branch.parent = part.parent?.map number
  atDepth : part.AtDepth branch.depth

structure Marks (number : TreePart → Nat) (branches : Array (Branch α))
    (leaf : List Nat × FileTree) (marker : Marker α) : Prop where
  depth_eq : marker.depth = leaf.1.length
  reads : (marker.kind, marker.path) = EntryKind.ofPayload (EntryKind.file.payload leaf.2.path)
  position_eq : branches[number (.limb leaf.1)]?.map (·.tip) = some marker.position

/-- A marker has the path of its leaf. An empty path is the exception: it reads as the letter and
the colon before it. -/
theorem Marks.path_eq {number : TreePart → Nat} {branches : Array (Branch α)}
    {leaf : List Nat × FileTree} {marker : Marker α} (h : Marks number branches leaf marker)
    (hpath : leaf.2.path ≠ "") : marker.path = leaf.2.path := by
  have hread := h.reads
  rw [EntryKind.ofPayload_payload _ hpath] at hread
  exact congrArg Prod.snd hread

/-- Whether a walk goes on to another one by drawing parts and marking leaves, with all brackets
closed that it opened. -/
structure Growth (number : TreePart → Nat) (parts : List TreePart)
    (leaves : List (List Nat × FileTree)) (before after : Walk α) : Prop where
  saved_eq : after.saved = before.saved
  depth_eq : after.pose.depth = before.pose.depth
  branches : ∃ drawn, after.branches.toList = before.branches.toList ++ drawn ∧
    List.Forall₂ (Fits number) parts drawn
  markers : ∃ placed, after.markers.toList = before.markers.toList ++ placed ∧
    List.Forall₂ (Marks number after.branches) leaves placed

structure StandsOn (number : TreePart → Nat) (part : TreePart) (walk : Walk α) : Prop where
  current_eq : walk.current = some (number part)
  position_eq : walk.branches[number part]?.map (·.tip) = some walk.pose.position

namespace Growth

variable {number : TreePart → Nat} {parts parts' : List TreePart}
  {leaves leaves' : List (List Nat × FileTree)} {before between after : Walk α}

/-- As many branches are drawn as there are parts. -/
theorem size_eq (h : Growth number parts leaves before after) :
    after.branches.size = before.branches.size + parts.length := by
  obtain ⟨drawn, hdrawn, hfits⟩ := h.branches
  rw [← Array.length_toList, hdrawn, List.length_append, hfits.length_eq, Array.length_toList]

/-- As many markers are placed as there are leaves. -/
theorem markers_size_eq (h : Growth number parts leaves before after) :
    after.markers.size = before.markers.size + leaves.length := by
  obtain ⟨placed, hplaced, hmarks⟩ := h.markers
  rw [← Array.length_toList, hplaced, List.length_append, hmarks.length_eq, Array.length_toList]

/-- Nothing drawn before changes. -/
theorem getElem?_eq (h : Growth number parts leaves before after) {i : Nat} {branch : Branch α}
    (hi : before.branches[i]? = some branch) : after.branches[i]? = some branch := by
  obtain ⟨drawn, hdrawn, -⟩ := h.branches
  rw [← Array.getElem?_toList] at hi ⊢
  obtain ⟨hlt, -⟩ := List.getElem?_eq_some_iff.1 hi
  rwa [hdrawn, List.getElem?_append_left hlt]

/-- One growth after another draws the parts of both and marks the leaves of both. -/
theorem trans (h : Growth number parts leaves before between)
    (h' : Growth number parts' leaves' between after) :
    Growth number (parts ++ parts') (leaves ++ leaves') before after := by
  obtain ⟨drawn, hdrawn, hfits⟩ := h.branches
  obtain ⟨drawn', hdrawn', hfits'⟩ := h'.branches
  obtain ⟨placed, hplaced, hmarks⟩ := h.markers
  obtain ⟨placed', hplaced', hmarks'⟩ := h'.markers
  -- Markers stay at the tips of their limbs, as no branch changes any more.
  have hkept {leaf : List Nat × FileTree} {marker : Marker α}
      (hm : Marks number between.branches leaf marker) :
      Marks number after.branches leaf marker := by
    obtain ⟨branch, hbranch, htip⟩ := Option.map_eq_some_iff.1 hm.position_eq
    exact ⟨hm.depth_eq, hm.reads, by rw [h'.getElem?_eq hbranch, Option.map_some, htip]⟩
  refine ⟨h'.saved_eq.trans h.saved_eq, h'.depth_eq.trans h.depth_eq, ⟨drawn ++ drawn', ?_, ?_⟩,
    ⟨placed ++ placed', ?_, ?_⟩⟩
  · rw [hdrawn', hdrawn, List.append_assoc]
  · exact List.rel_append hfits hfits'
  · rw [hplaced', hplaced, List.append_assoc]
  · exact List.rel_append (hmarks.imp fun _ _ hm => hkept hm) hmarks'

end Growth

/-- Whether two walks differ in nothing but how the turtle is turned and how thick it draws. -/
structure Still (before after : Walk α) : Prop where
  position_eq : after.pose.position = before.pose.position
  depth_eq : after.pose.depth = before.pose.depth
  current_eq : after.current = before.current
  saved_eq : after.saved = before.saved
  branches_eq : after.branches = before.branches
  markers_eq : after.markers = before.markers

namespace Still

variable {number : TreePart → Nat} {before between after : Walk α}

theorem refl (walk : Walk α) : Still walk walk := ⟨rfl, rfl, rfl, rfl, rfl, rfl⟩

theorem trans (h : Still before between) (h' : Still between after) : Still before after :=
  ⟨h'.position_eq.trans h.position_eq, h'.depth_eq.trans h.depth_eq,
    h'.current_eq.trans h.current_eq, h'.saved_eq.trans h.saved_eq,
    h'.branches_eq.trans h.branches_eq, h'.markers_eq.trans h.markers_eq⟩

/-- Turning and setting a radius draw nothing and mark nothing. -/
theorem growth (h : Still before after) : Growth number [] [] before after :=
  ⟨h.saved_eq, h.depth_eq, ⟨[], by rw [h.branches_eq, List.append_nil], List.Forall₂.nil⟩,
    ⟨[], by rw [h.markers_eq, List.append_nil], List.Forall₂.nil⟩⟩

end Still

/-! ### Single instructions -/

variable {number : TreePart → Nat}

/-- What is drawn between brackets is drawn, and the turtle is back where the brackets opened. -/
theorem Growth.bracket {parts : List TreePart} {leaves : List (List Nat × FileTree)}
    {walk inner : Walk α} (h : Growth number parts leaves walk.push inner) :
    Growth number parts leaves walk inner.pop ∧ inner.pop.pose = walk.pose ∧
      inner.pop.current = walk.current := by
  -- What was opened inside is closed again, so the state on top is the one that was pushed.
  have hpop : inner.pop =
      { inner with pose := walk.pose, current := walk.current, saved := walk.saved } := by
    rw [Walk.pop, h.saved_eq]
    rfl
  rw [hpop]
  exact ⟨⟨rfl, rfl, h.branches, h.markers⟩, rfl, rfl⟩

variable [Scalar α]

/-- A draw at the place that a part's number names draws that part and ends on its tip. -/
theorem growth_draw {walk : Walk α} (part : TreePart) (hnumber : number part = walk.branches.size)
    (hcurrent : walk.current = part.parent?.map number) (hdepth : part.AtDepth walk.pose.depth)
    (length : α) :
    Growth number [part] [] walk (walk.draw length) ∧
      StandsOn number part (walk.draw length) := by
  -- The branch is pushed at the end, which is the place that the part's number names.
  refine ⟨⟨rfl, rfl, ⟨[_], Array.toList_push, ?_⟩, ⟨[], ?_, List.Forall₂.nil⟩⟩, ?_, ?_⟩
  · exact List.Forall₂.cons ⟨hcurrent, hdepth⟩ List.Forall₂.nil
  · rw [List.append_nil]
    rfl
  · rw [hnumber]
    rfl
  · rw [hnumber, Walk.draw, Array.getElem?_push_size]
    rfl

/-- A mark at the tip of a leaf's limb marks that leaf and draws nothing. -/
theorem growth_mark {walk : Walk α} {address : List Nat} (leaf : FileTree)
    (hstands : StandsOn number (.limb address) walk) (hdepth : walk.pose.depth = address.length) :
    Growth number [] [(address, leaf)] walk (walk.mark (EntryKind.file.payload leaf.path)) := by
  refine ⟨rfl, rfl, ⟨[], (List.append_nil _).symm, List.Forall₂.nil⟩, ⟨[_], Array.toList_push, ?_⟩⟩
  exact List.Forall₂.cons ⟨hdepth, rfl, hstands.position_eq⟩ List.Forall₂.nil

variable [Trig α] (angle : α)

def Turtle.Command.aims : Turtle.Command → Bool
  | turn _ _ => true
  | width => true
  | _ => false

theorem still_step {i : Instruction} (h : i.command.aims) (walk : Walk α) :
    Still walk (walk.step angle i) := by
  obtain ⟨command, payload⟩ := i
  cases command with
  | turn about backward => exact ⟨rfl, rfl, rfl, rfl, rfl, rfl⟩
  | width => exact ⟨rfl, rfl, rfl, rfl, rfl, rfl⟩
  | _ => cases h

/-! ### Tips -/

def side (turn : Instruction) : List Instruction :=
  [⟨.push, none⟩, turn, ⟨.draw, none⟩, ⟨.pop, none⟩]

/-- A side branch is one twig, behind which the turtle stands where it stood before. -/
theorem growth_side {turn : Instruction} (hturn : turn.command.aims) {walk : Walk α}
    (address : List Nat) (k : Nat) (hnumber : number (.twig address k) = walk.branches.size)
    (hcurrent : walk.current = (TreePart.twig address k).parent?.map number) :
    Growth number [.twig address k] [] walk (walk.run angle (side turn)) ∧
      (walk.run angle (side turn)).current = walk.current := by
  have hstill : Still walk.push (walk.push.step angle turn) := still_step angle hturn _
  -- Behind the turn the turtle still stands on the branch outside the brackets.
  have hnumber' : number (.twig address k) = (walk.push.step angle turn).branches.size := by
    rw [hstill.branches_eq, hnumber]
    rfl
  have hcurrent' : (walk.push.step angle turn).current =
      (TreePart.twig address k).parent?.map number := by
    rw [hstill.current_eq, ← hcurrent]
    rfl
  obtain ⟨hdraw, -⟩ := growth_draw _ hnumber' hcurrent' trivial (1.0 : α)
  obtain ⟨hgrowth, -, hback⟩ := (hstill.growth.trans hdraw).bracket
  exact ⟨hgrowth, hback⟩

/-- Every organic tip is a twig with two sides, and at most one further twig between the sides. -/
theorem instructions_tip {tip : Word} (h : tip ∈ LSystem.organicTips) :
    ∃ first second : Instruction, first.command.aims ∧ second.command.aims ∧
      (instructions tip = ⟨.draw, none⟩ :: (side first ++ side second) ∨
        instructions tip = ⟨.draw, none⟩ :: (side first ++ ⟨.draw, none⟩ :: side second)) := by
  simp only [LSystem.organicTips, List.mem_cons, List.not_mem_nil, or_false] at h
  rcases h with rfl | rfl | rfl
  · exact ⟨⟨.turn .yaw false, none⟩, ⟨.turn .yaw true, none⟩, rfl, rfl,
      Or.inl (by decide +kernel)⟩
  · exact ⟨⟨.turn .yaw false, none⟩, ⟨.turn .yaw true, none⟩, rfl, rfl,
      Or.inr (by decide +kernel)⟩
  · exact ⟨⟨.turn .pitch false, none⟩, ⟨.turn .pitch true, none⟩, rfl, rfl,
      Or.inl (by decide +kernel)⟩

/-- The first twig with its first side, the beginning that all tips have in common. -/
theorem growth_stem {turn : Instruction} (hturn : turn.command.aims) {walk : Walk α}
    (address : List Nat) (hnumber : Numbered number walk.branches.size (twigs address 2))
    (hcurrent : walk.current = some (number (.limb address))) :
    Growth number (twigs address 2) [] walk (walk.run angle (⟨.draw, none⟩ :: side turn)) ∧
      (walk.run angle (⟨.draw, none⟩ :: side turn)).current = some (number (.twig address 0)) := by
  obtain ⟨hmain, hstands⟩ :=
    growth_draw (.twig address 0) (hnumber 0 _ rfl) hcurrent trivial (1.0 : α)
  have hplace := (hnumber 1 _ rfl).trans hmain.size_eq.symm
  obtain ⟨hside, hback⟩ := growth_side angle hturn address 1 hplace hstands.current_eq
  exact ⟨hmain.trans hside, hback.trans hstands.current_eq⟩

/-- An organic tip grows into the first twigs of a leaf, three or four. -/
theorem growth_tip {tip : Word} (h : tip ∈ LSystem.organicTips) :
    ∃ count, (count = 3 ∨ count = 4) ∧ ∀ (number : TreePart → Nat) (address : List Nat)
      (walk : Walk α), Numbered number walk.branches.size (twigs address count) →
      walk.current = some (number (.limb address)) →
      Growth number (twigs address count) [] walk (walk.run angle (instructions tip)) := by
  obtain ⟨first, second, hfirst, hsecond, hlist | hlist⟩ := instructions_tip h
  · -- Both sides leave the same branch.
    refine ⟨3, Or.inl rfl, ?_⟩
    intro number address walk hnumber hcurrent
    have hsplit : twigs address 3 = twigs address 2 ++ [.twig address 2] := rfl
    rw [hsplit] at hnumber ⊢
    obtain ⟨hstem, hback⟩ := growth_stem angle hfirst address hnumber.left hcurrent
    have hplace := hnumber.right.head.trans hstem.size_eq.symm
    obtain ⟨hside, -⟩ := growth_side angle hsecond address 2 hplace hback
    rw [hlist, ← List.cons_append, Walk.run_append]
    exact hstem.trans hside
  · -- The stem goes on, and the second side leaves its continuation.
    refine ⟨4, Or.inr rfl, ?_⟩
    intro number address walk hnumber hcurrent
    have hsplit : twigs address 4 =
        twigs address 2 ++ [.twig address 2] ++ [.twig address 3] := rfl
    rw [hsplit] at hnumber ⊢
    obtain ⟨hstem, hback⟩ := growth_stem angle hfirst address hnumber.left.left hcurrent
    have hplace := hnumber.left.right.head.trans hstem.size_eq.symm
    obtain ⟨hnext, hstands⟩ := growth_draw (.twig address 2) hplace hback trivial (1.0 : α)
    have hplace' := hnumber.right.head.trans (hstem.trans hnext).size_eq.symm
    obtain ⟨hside, -⟩ := growth_side angle hsecond address 3 hplace' hstands.current_eq
    rw [hlist, ← List.cons_append, Walk.run_append, Walk.run_cons]
    exact (hstem.trans hnext).trans hside

end Arbor
