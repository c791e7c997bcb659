import Mathlib.Data.List.Infix
import Arbor.Proofs.Turtle.Alike
import Arbor.Proofs.Turtle.Reading
import Arbor.Proofs.Turtle.Rooted
import Arbor.Scalar.Binary

/-! Blocks in brackets. The turtle comes back from one to where it stood, so that nothing behind the
block tells whether it is there, but for the numbers of the branches. -/

namespace Arbor

def Word.bracket (block : Word) : Word :=
  '[' :: block ++ [']']

/-! ### Taking a part out of a tree -/

namespace Skeleton

variable {α : Type} {before after : Skeleton α}

def IsPrefix (skeleton other : Skeleton α) : Prop :=
  skeleton.branches.toList <+: other.branches.toList ∧
    skeleton.markers.toList <+: other.markers.toList

def closeGap (before after : Skeleton α) (place : Nat) : Nat :=
  if place < before.branches.size then place
  else place - (after.branches.size - before.branches.size)

def openGap (before after : Skeleton α) (place : Nat) : Nat :=
  if place < before.branches.size then place
  else place + (after.branches.size - before.branches.size)

/-- What is left of a skeleton without what was drawn and placed after `before` and up to `after`.
The branches keep their parents, whose places change. -/
def without (skeleton before after : Skeleton α) : Skeleton α where
  branches := ((skeleton.branches.toList.take before.branches.size ++
    skeleton.branches.toList.drop after.branches.size).map
      (Branch.renumber (before.closeGap after))).toArray
  markers := (skeleton.markers.toList.take before.markers.size ++
    skeleton.markers.toList.drop after.markers.size).toArray

def KeepsParents (skeleton before after : Skeleton α) : Prop :=
  ∀ (i j : Nat) (branch : Branch α), skeleton.branches[i]? = some branch → branch.parent = some j →
    (i < before.branches.size ∨ after.branches.size ≤ i) →
      j < before.branches.size ∨ after.branches.size ≤ j

theorem closeGap_of_lt {place : Nat} (h : place < before.branches.size) :
    before.closeGap after place = place :=
  if_pos h

theorem openGap_of_lt {place : Nat} (h : place < before.branches.size) :
    before.openGap after place = place :=
  if_pos h

theorem openGap_of_le {place : Nat} (h : before.branches.size ≤ place) :
    before.openGap after place = place + (after.branches.size - before.branches.size) :=
  if_neg (Nat.not_lt.2 h)

/-- A place that is kept goes back to where it was. -/
theorem closeGap_openGap (before after : Skeleton α) (place : Nat) :
    before.closeGap after (before.openGap after place) = place := by
  rcases Nat.lt_or_ge place before.branches.size with hlt | hge
  · rw [openGap_of_lt hlt, closeGap_of_lt hlt]
  · have hbeyond : ¬place + (after.branches.size - before.branches.size) < before.branches.size := by
      omega
    rw [openGap_of_le hge, closeGap, if_neg hbeyond]
    omega

namespace IsPrefix

theorem size_le (h : before.IsPrefix after) : before.branches.size ≤ after.branches.size :=
  h.1.length_le

/-- Nothing is moved into the gap. -/
theorem openGap_lt_or_le (h : before.IsPrefix after) (place : Nat) :
    before.openGap after place < before.branches.size ∨
      after.branches.size ≤ before.openGap after place := by
  have hsize := h.size_le
  rcases Nat.lt_or_ge place before.branches.size with hlt | hge
  · rw [openGap_of_lt hlt]
    exact Or.inl hlt
  · rw [openGap_of_le hge]
    right
    omega

end IsPrefix

theorem take_append_drop_of_isPrefix {β : Type} {first second whole rest : List β}
    (h : first <+: second) (hwhole : whole = second ++ rest) :
    whole.take first.length ++ whole.drop second.length = first ++ rest := by
  obtain ⟨inner, rfl⟩ := h
  rw [hwhole, List.drop_left, List.append_assoc, List.take_left]

end Skeleton

namespace Turtle

/-! ### Well-nested brackets -/

def IsBalanced (commands : List Command) : Prop :=
  (∀ first ∈ commands.inits, first.count .pop ≤ first.count .push) ∧
    commands.count .pop = commands.count .push

instance (commands : List Command) : Decidable (IsBalanced commands) :=
  inferInstanceAs (Decidable (_ ∧ _))

def Instruction.bracket (block : List Instruction) : List Instruction :=
  ⟨.push, none⟩ :: block ++ [⟨.pop, none⟩]

/-- A self-contained block is read by itself between its brackets, and so is what comes behind. -/
theorem instructions_bracket_append {block : Word} (h : block.IsSelfContained) (last : Word) :
    instructions (block.bracket ++ last) =
      Instruction.bracket (instructions block) ++ instructions last := by
  have hopen : Command.ofSymbol? '[' = some .push := rfl
  have hclose : Command.ofSymbol? ']' = some .pop := rfl
  have hword : block.bracket ++ last = '[' :: (block ++ (']' :: last)) := by
    rw [Word.bracket, List.append_assoc, List.cons_append, List.singleton_append]
  have hpayload : Word.splitPayload? (']' :: last) = none :=
    Word.splitPayload?_of_head_ne (by decide) last
  rw [hword, instructions_cons_of_not_takesPayload hopen nofun, instructions_append h hpayload,
    instructions_cons_of_not_takesPayload hclose nofun, Instruction.bracket, List.append_assoc]
  rfl

theorem instructions_append_bracket_append {first block : Word} (hfirst : first.IsSelfContained)
    (hblock : block.IsSelfContained) (last : Word) :
    instructions (first ++ block.bracket ++ last) =
      instructions first ++ Instruction.bracket (instructions block) ++ instructions last := by
  have hpayload : Word.splitPayload? (block.bracket ++ last) = none :=
    Word.splitPayload?_of_head_ne (by decide) _
  rw [List.append_assoc, instructions_append hfirst hpayload,
    instructions_bracket_append hblock last, List.append_assoc]

/-- Between self-contained words, brackets are read as brackets. -/
theorem instructions_append_bracket {first block : Word} (hfirst : first.IsSelfContained)
    (hblock : block.IsSelfContained) :
    instructions (first ++ block.bracket) =
      instructions first ++ Instruction.bracket (instructions block) := by
  have hread := instructions_append_bracket_append hfirst hblock []
  rwa [List.append_nil, instructions_nil, List.append_nil] at hread

section

variable {α : Type} [Scalar α] [Trig α] {walk : Walk α}
  {opened base : List (Pose α × Option Nat)}

/-- A walk over a bracketed block goes on from the walk over what stands before it. -/
theorem Walk.run_append_bracket (walk : Walk α) (angle : α) {first block : Word}
    (hfirst : first.IsSelfContained) (hblock : block.IsSelfContained) :
    walk.run angle (instructions (first ++ block.bracket)) =
      (walk.run angle (instructions first)).run angle
        (Instruction.bracket (instructions block)) := by
  rw [instructions_append_bracket hfirst hblock, Walk.run_append]

theorem Walk.run_append_bracket_append (walk : Walk α) (angle : α) {first block : Word}
    (hfirst : first.IsSelfContained) (hblock : block.IsSelfContained) (last : Word) :
    walk.run angle (instructions (first ++ block.bracket ++ last)) =
      (walk.run angle (instructions (first ++ block.bracket))).run angle (instructions last) := by
  rw [instructions_append_bracket_append hfirst hblock,
    instructions_append_bracket hfirst hblock, Walk.run_append]

/-- A command takes from what the open brackets saved only what it closes. -/
theorem Walk.saved_step (angle : α) (i : Instruction) (hsaved : walk.saved = opened ++ base)
    (hi : i.command = .pop → opened ≠ []) :
    ∃ rest, (walk.step angle i).saved = rest ++ base ∧
      rest.length + [i.command].count .pop = opened.length + [i.command].count .push := by
  obtain ⟨command, payload⟩ := i
  cases command with
  | push =>
    have hpush : walk.push.saved = (walk.pose, walk.current) :: walk.saved := rfl
    refine ⟨(walk.pose, walk.current) :: opened, ?_, rfl⟩
    rw [Walk.step, hpush, hsaved, List.cons_append]
  | pop =>
    cases opened with
    | nil => exact absurd rfl (hi rfl)
    | cons state opened =>
      -- What is closed was opened since, so the states below stay.
      rw [List.cons_append] at hsaved
      refine ⟨opened, ?_, rfl⟩
      rw [Walk.step, Walk.pop_of_saved_cons hsaved]
  | _ => exact ⟨opened, hsaved, rfl⟩

/-- As long as no more brackets close than were opened, what was saved before them stays. -/
theorem Walk.saved_run (angle : α) {list : List Instruction} (hsaved : walk.saved = opened ++ base)
    (hlist : ∀ first, first <+: list.map (·.command) →
      first.count .pop ≤ opened.length + first.count .push) :
    ∃ rest, (walk.run angle list).saved = rest ++ base ∧
      rest.length + (list.map (·.command)).count .pop =
        opened.length + (list.map (·.command)).count .push := by
  induction list generalizing walk opened with
  | nil => exact ⟨opened, hsaved, rfl⟩
  | cons i list ih =>
    have hcount : ∀ (command : Command) (first : List Command),
        (i.command :: first).count command = [i.command].count command + first.count command := by
      intro command first
      have hcons : i.command :: first = [i.command] ++ first := rfl
      rw [hcons, List.count_append]
    -- The bound at the first prefix lets the instruction close a bracket, and the bounds at the
    -- longer ones are those for the rest of the list.
    have hi : i.command = .pop → opened ≠ [] := by
      intro hpop hopened
      have hone := hlist [i.command] (List.cons_prefix_cons.2 ⟨rfl, List.nil_prefix⟩)
      rw [hpop, hopened, List.length_nil] at hone
      exact absurd hone (by decide)
    obtain ⟨opened', hsaved', hlength⟩ := Walk.saved_step angle i hsaved hi
    have hlist' : ∀ first, first <+: list.map (·.command) →
        first.count .pop ≤ opened'.length + first.count .push := by
      intro first hfirst
      have hlonger := hlist (i.command :: first) (List.cons_prefix_cons.2 ⟨rfl, hfirst⟩)
      have hpop := hcount .pop first
      have hpush := hcount .push first
      omega
    obtain ⟨rest, hrest, hlength'⟩ := ih hsaved' hlist'
    refine ⟨rest, hrest, ?_⟩
    have hpop := hcount .pop (list.map (·.command))
    have hpush := hcount .push (list.map (·.command))
    rw [List.map_cons]
    omega

end

/-! ### Coming back -/

variable {α : Type}

/-- Whether a walk has come back to where another one is, and has taken back nothing that was drawn
or placed. -/
structure Walk.Resumes (back walk : Walk α) : Prop where
  pose : back.pose = walk.pose
  current : back.current = walk.current
  saved : back.saved = walk.saved
  skeleton : walk.skeleton.IsPrefix back.skeleton

variable {walk back after other : Walk α} {drawn : List (Branch α)} {placed : List (Marker α)}

theorem Walk.Resumes.refl (walk : Walk α) : walk.Resumes walk :=
  ⟨rfl, rfl, rfl, List.prefix_rfl, List.prefix_rfl⟩

/-- What comes back to a walk that has come back has come back all the way. -/
theorem Walk.Resumes.trans (h : back.Resumes walk) (h' : other.Resumes back) :
    other.Resumes walk :=
  ⟨h'.pose.trans h.pose, h'.current.trans h.current, h'.saved.trans h.saved,
    h.skeleton.1.trans h'.skeleton.1, h.skeleton.2.trans h'.skeleton.2⟩

/-- What a walk draws begins with what it had drawn. -/
theorem Walk.Grows.isPrefix (h : walk.Grows after drawn placed) :
    walk.skeleton.IsPrefix after.skeleton :=
  ⟨⟨drawn, h.branches.symm⟩, ⟨placed, h.markers.symm⟩⟩

variable [Scalar α]

/-- What well-nested brackets open, they close. -/
theorem Walk.run_bracket_resumes [Trig α] (walk : Walk α) (angle : α) {block : List Instruction}
    (h : IsBalanced (block.map (·.command))) :
    (walk.run angle (Instruction.bracket block)).Resumes walk := by
  obtain ⟨hnested, hequal⟩ := h
  have hlist : ∀ first, first <+: block.map (·.command) →
      first.count .pop ≤ ([] : List (Pose α × Option Nat)).length + first.count .push := by
    intro first hfirst
    have hle := hnested first ((List.mem_inits first _).2 hfirst)
    rwa [List.length_nil, Nat.zero_add]
  have hpush : walk.push.saved = [] ++ ((walk.pose, walk.current) :: walk.saved) := rfl
  obtain ⟨rest, hrest, hlength⟩ := Walk.saved_run angle hpush hlist
  -- The block leaves behind just what its own bracket saved, and this is what comes back.
  have hempty : rest = [] := by
    rw [List.length_nil, hequal] at hlength
    exact List.eq_nil_of_length_eq_zero (by omega)
  rw [hempty, List.nil_append] at hrest
  have hrun : walk.run angle (Instruction.bracket block) = (walk.push.run angle block).pop := by
    rw [Instruction.bracket, Walk.run_append]
    rfl
  have hpop := Walk.pop_of_saved_cons hrest
  obtain ⟨drawn, placed, hgrows⟩ := walk.grows_run angle (Instruction.bracket block)
  have hprefix := hgrows.isPrefix
  rw [hrun, hpop] at hprefix ⊢
  exact ⟨rfl, rfl, rfl, hprefix⟩

variable {R : Foot α → Foot α → Prop}

/-- Walks that have come back to one place go on alike, under a renumbering that keeps what was
drawn before they left and takes the next free places of the one to those of the other. -/
theorem Walk.Resumes.alike_of_resumes (h : back.Resumes walk) (h' : other.Resumes walk)
    (hroot : walk.IsRooted R) {place : Nat → Nat}
    (hkeep : ∀ i, i < walk.branches.size → place i = i)
    (hnext : ∀ i, place (back.branches.size + i) = other.branches.size + i) :
    back.Alike place other := by
  -- What the turtle stands on now, or after a bracket closes, was drawn before.
  have hsupport : ∀ support : Option Nat, (∀ i, support = some i → i < walk.branches.size) →
      support.map place = support := by
    intro support hsupport
    cases support with
    | none => rfl
    | some i => rw [Option.map_some, hkeep i (hsupport i rfl)]
  have hstate : ∀ state ∈ walk.saved, (state.1, state.2.map place) = state := by
    intro state hmem
    rw [hsupport state.2 fun i hi => hroot.saved_lt hmem hi]
  refine ⟨h'.pose.trans h.pose.symm, ?_, ?_, hnext⟩
  · rw [h'.current, h.current, hsupport walk.current fun i hi => hroot.current_lt hi]
  · rw [h'.saved, h.saved, List.map_congr_left hstate, List.map_id']

/-- A walk that has come back goes on as if it had never been away. What it draws then has the
places behind the gap. -/
theorem Walk.Resumes.alike (h : back.Resumes walk) (hroot : walk.IsRooted R) :
    walk.Alike (walk.skeleton.openGap back.skeleton) back := by
  have hsize : walk.branches.size ≤ back.branches.size := h.skeleton.size_le
  have hnext : ∀ i, walk.skeleton.openGap back.skeleton (walk.branches.size + i) =
      back.branches.size + i := by
    intro i
    have hgap : walk.skeleton.openGap back.skeleton (walk.branches.size + i) =
        walk.branches.size + i + (back.branches.size - walk.branches.size) :=
      Skeleton.openGap_of_le (Nat.le_add_right _ i)
    omega
  exact (Walk.Resumes.refl walk).alike_of_resumes h hroot
    (fun _ hi => Skeleton.openGap_of_lt hi) hnext

/-- Without what was drawn while a walk was away, only that is left which it would have drawn in any
case. -/
theorem Walk.IsRooted.without_eq (hroot : walk.IsRooted R)
    (hback : walk.skeleton.IsPrefix back.skeleton) (hafter : walk.Grows after drawn placed)
    (hother : back.Grows other
      (drawn.map (Branch.renumber (walk.skeleton.openGap back.skeleton))) placed) :
    other.skeleton.without walk.skeleton back.skeleton = after.skeleton := by
  have hbranches := Skeleton.take_append_drop_of_isPrefix hback.1 hother.branches
  have hmarkers := Skeleton.take_append_drop_of_isPrefix hback.2 hother.markers
  -- The first branches grow from each other, and their places are in front of the gap.
  have hold : walk.branches.toList.map (Branch.renumber (walk.skeleton.closeGap back.skeleton)) =
      walk.branches.toList := by
    apply Branch.map_renumber_eq_self
    intro branch hbranch j hj
    exact Skeleton.closeGap_of_lt (hroot.parent_lt_size hbranch hj)
  -- The places of the last ones were moved over the gap, and go back.
  have hnew : (drawn.map (Branch.renumber (walk.skeleton.openGap back.skeleton))).map
      (Branch.renumber (walk.skeleton.closeGap back.skeleton)) = drawn := by
    rw [Branch.map_renumber_renumber]
    apply Branch.map_renumber_eq_self
    exact fun _ _ j _ => Skeleton.closeGap_openGap _ _ j
  rw [Array.length_toList, Array.length_toList] at hbranches hmarkers
  have hleft : (other.skeleton.without walk.skeleton back.skeleton).branches.toList =
      after.branches.toList := by
    have hkept : (other.skeleton.without walk.skeleton back.skeleton).branches.toList =
        (walk.branches.toList ++
          drawn.map (Branch.renumber (walk.skeleton.openGap back.skeleton))).map
            (Branch.renumber (walk.skeleton.closeGap back.skeleton)) :=
      congrArg (List.map _) hbranches
    rw [hkept, List.map_append, hold, hnew, hafter.branches]
  have hleft' : (other.skeleton.without walk.skeleton back.skeleton).markers.toList =
      after.markers.toList := by
    rw [hafter.markers]
    exact hmarkers
  exact congrArg₂ Skeleton.mk (Array.ext' hleft) (Array.ext' hleft')

/-- What was drawn after the walk came back has not grown from what was drawn while it was away. -/
theorem Walk.IsRooted.keepsParents (hroot : other.IsRooted R)
    (hback : walk.skeleton.IsPrefix back.skeleton)
    (hother : back.Grows other
      (drawn.map (Branch.renumber (walk.skeleton.openGap back.skeleton))) placed) :
    other.skeleton.KeepsParents walk.skeleton back.skeleton := by
  intro i j branch hbranch hparent hkept
  rcases hkept with hbefore | hbehind
  · have hlt : j < i := hroot.parent_lt hbranch hparent
    exact Or.inl (hlt.trans hbefore)
  · have hplace : other.branches.toList[i]? = some branch := by
      rw [Array.getElem?_toList]
      exact hbranch
    have hlength : back.branches.toList.length ≤ i := hbehind
    rw [hother.branches, List.getElem?_append_right hlength] at hplace
    -- A branch behind the gap was renumbered, and no place was moved into the gap.
    obtain ⟨original, -, hmoved⟩ := List.mem_map.1 (List.mem_of_getElem? hplace)
    rw [← hmoved] at hparent
    obtain ⟨place, -, hj⟩ := Option.map_eq_some_iff.1 hparent
    rw [← hj]
    exact hback.openGap_lt_or_le place

/-- A block in brackets draws and places what it does and changes nothing else. The turtle comes
back from it to where it stood, with the same brackets open. What is drawn behind the block does not
grow from it, and the tree without the block's branches and markers is the tree of the word without
the block. -/
theorem interpret_without_bracket [Trig α] (angle : α) {first block last : Word}
    (hfirst : first.IsSelfContained) (hblock : block.IsSelfContained)
    (hbalanced : IsBalanced ((instructions block).map (·.command)))
    (hlast : last.head? ≠ some '(') :
    (Walk.start.run angle (instructions (first ++ block.bracket))).Resumes
        (Walk.start.run angle (instructions first)) ∧
      (interpret angle (first ++ block.bracket)).IsPrefix
        (interpret angle (first ++ block.bracket ++ last)) ∧
      (interpret angle (first ++ block.bracket ++ last)).KeepsParents
        (interpret angle first) (interpret angle (first ++ block.bracket)) ∧
      (interpret angle (first ++ block.bracket ++ last)).without
        (interpret angle first) (interpret angle (first ++ block.bracket)) =
          interpret angle (first ++ last) := by
  have hfull := Walk.start.run_append_bracket_append angle hfirst hblock last
  have hshort : Walk.start.run angle (instructions (first ++ last)) =
      (Walk.start.run angle (instructions first)).run angle (instructions last) := by
    rw [instructions_append hfirst (Word.splitPayload?_of_head?_ne hlast), Walk.run_append]
  have hresumes : (Walk.start.run angle (instructions (first ++ block.bracket))).Resumes
      (Walk.start.run angle (instructions first)) := by
    rw [Walk.run_append_bracket _ angle hfirst hblock]
    exact Walk.run_bracket_resumes _ angle hbalanced
  have hroot := Walk.isRooted_depth angle (instructions first)
  have hrootFull := Walk.isRooted_depth angle (instructions (first ++ block.bracket ++ last))
  -- The walk over the last piece is the same with and without the block.
  obtain ⟨drawn, placed, hafter, hother, -⟩ := (hresumes.alike hroot).run angle (instructions last)
  rw [← hshort] at hafter
  rw [← hfull] at hother
  exact ⟨hresumes, hother.isPrefix, hrootFull.keepsParents hresumes.skeleton hother,
    hroot.without_eq hresumes.skeleton hafter hother⟩

def stem : Word := ['F', '(', '2', ')']

def bough : Word := ['+', 'G', '[', '@', '(', 'f', ':', 'a', ')', ']']

def crown : Word := ['!', 'F']

/-- A block with a payload and with a block of its own, taken out of a word. -/
theorem bough_interpret_without_bracket :
    stem.IsSelfContained ∧ bough.IsSelfContained ∧
      IsBalanced ((instructions bough).map (·.command)) ∧ crown.head? ≠ some '(' ∧
      (interpret (25.0 : Float32) (stem ++ bough.bracket ++ crown)).without
        (interpret 25.0 stem) (interpret 25.0 (stem ++ bough.bracket)) =
          interpret 25.0 (stem ++ crown) := by
  have hfirst : stem.IsSelfContained := by decide
  have hblock : bough.IsSelfContained := by decide
  have hbalanced : IsBalanced ((instructions bough).map (·.command)) := by decide +kernel
  have hlast : crown.head? ≠ some '(' := by decide
  obtain ⟨-, -, -, hwithout⟩ :=
    interpret_without_bracket (25.0 : Float32) hfirst hblock hbalanced hlast
  exact ⟨hfirst, hblock, hbalanced, hlast, hwithout⟩

end Turtle

end Arbor
