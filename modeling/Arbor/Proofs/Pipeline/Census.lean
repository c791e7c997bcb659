import Arbor.Proofs.Pipeline.Tips

/-! How many branches and markers stand for a hierarchy. Each entry below the root takes a limb,
each directory with children a trunk, and each leaf below the root three or four twigs. The names
take none, unless a `)` ends one early and the turtle finds a command in the rest of it. -/

namespace Arbor

open FileTree TreePart Step Turtle

/-- Whether a number of parts is enough for some entries below the root and not too large: a limb
for each, a trunk for each that has children, and three or four twigs for each that has none. -/
def FileTree.Take (entries : List FileTree) (count : Nat) : Prop :=
  entries.countP isParent + entries.length + 3 * entries.countP isLeaf ≤ count ∧
    count ≤ entries.countP isParent + entries.length + 4 * entries.countP isLeaf

/-- What two groups of entries take, they take together. -/
theorem FileTree.Take.append {entries entries' : List FileTree} {count count' : Nat}
    (h : Take entries count) (h' : Take entries' count') :
    Take (entries ++ entries') (count + count') := by
  unfold Take at h h' ⊢
  rw [List.countP_append, List.countP_append, List.length_append]
  omega

namespace TreePart

theorem length_twigs (address : List Nat) (count : Nat) : (twigs address count).length = count := by
  rw [twigs, List.length_map, List.length_range]

/-- An entry's own parts are a limb and a trunk, or a limb and three or four twigs. -/
theorem AreOf.take {address : List Nat} {entry : FileTree} {parts : List TreePart}
    (hfiles : entry.filesAreLeaves) (h : AreOf address entry parts) : Take [entry] parts.length := by
  unfold AreOf at h
  split at h
  case isTrue hchildren =>
    have hleaf : entry.isLeaf := List.isEmpty_iff.2 hchildren
    rw [Take, List.countP_cons_of_neg (not_isParent_of_isLeaf hleaf),
      List.countP_cons_of_pos hleaf]
    rcases h with rfl | rfl <;> simp [length_twigs]
  case isFalse hchildren =>
    have hleaf : ¬entry.isLeaf := fun hempty => hchildren (List.isEmpty_iff.1 hempty)
    rw [Take, List.countP_cons_of_pos (isParent_of_not_isLeaf hfiles hleaf),
      List.countP_cons_of_neg hleaf, h]
    simp

/-- The step from the parts that the children take to those of all of them. -/
theorem DrawFrom.take {address : List Nat} {place : Nat} {children : List FileTree}
    {parts : List TreePart} (h : DrawFrom address place children parts)
    (ih : ∀ child ∈ children, ∀ {address : List Nat} {parts : List TreePart},
      Draw address child parts → Take (child :: child.descendants) parts.length) :
    Take (descendantsOf children) parts.length := by
  induction children generalizing place parts with
  | nil =>
    obtain rfl : parts = [] := h
    exact ⟨Nat.le_refl 0, Nat.le_refl 0⟩
  | cons child rest ihrest =>
    obtain ⟨first, others, rfl, hfirst, hothers⟩ := h
    rw [List.forall_mem_cons] at ih
    rw [descendantsOf_cons, List.length_append]
    exact (ih.1 hfirst).append (ihrest hothers ih.2)

/-- The parts of an entry and of those below it, by induction on the entry. -/
theorem Draw.take {tree : FileTree} (hfiles : tree.filesAreLeaves) {address : List Nat}
    {parts : List TreePart} (h : Draw address tree parts) :
    Take (tree :: tree.descendants) parts.length := by
  induction tree using induction_on_children generalizing address parts with
  | entry name path kind metadata children ih =>
    obtain ⟨-, hbelow⟩ := filesAreLeaves_entry_iff.1 hfiles
    obtain ⟨own, below, rfl, hown, hdraw⟩ := h
    have hchildren : Take (descendantsOf children) below.length :=
      hdraw.take fun child hmem _ _ hchild => ih child hmem (hbelow child hmem) hchild
    rw [List.length_append, descendants_entry]
    exact (hown.take hfiles).append hchildren

/-- The root takes a trunk alone. -/
theorem DrawAll.take {tree : FileTree} (hfiles : tree.filesAreLeaves) {parts : List TreePart}
    (h : DrawAll tree parts) :
    ∃ below, parts.length = below + 1 ∧ Take tree.descendants below := by
  obtain ⟨name, path, kind, metadata, children⟩ := tree
  obtain ⟨-, hbelow⟩ := filesAreLeaves_entry_iff.1 hfiles
  obtain ⟨below, rfl, hdraw⟩ := h
  exact ⟨below.length, List.length_cons,
    hdraw.take fun child hmem _ _ hchild => hchild.take (hbelow child hmem)⟩

end TreePart

namespace Turtle

variable {α : Type} [Scalar α] [Trig α] (angle : α)

/-- A draw adds a branch, a mark a marker, and nothing else adds anything. -/
theorem Walk.size_step (walk : Walk α) (i : Instruction) :
    (walk.step angle i).branches.size =
        walk.branches.size + [i].countP (fun j => j.command = .draw) ∧
      (walk.step angle i).markers.size =
        walk.markers.size + [i].countP (fun j => j.command = .mark) := by
  obtain ⟨command, payload⟩ := i
  cases command with
  | draw => exact ⟨Array.size_push _, rfl⟩
  | mark => exact ⟨rfl, Array.size_push _⟩
  | pop => exact ⟨congrArg Array.size walk.branches_pop, congrArg Array.size walk.markers_pop⟩
  | _ => exact ⟨rfl, rfl⟩

/-- A walk has drawn a branch for each draw and placed a marker for each mark. -/
theorem Walk.size_run (walk : Walk α) (list : List Instruction) :
    (walk.run angle list).branches.size =
        walk.branches.size + list.countP (fun i => i.command = .draw) ∧
      (walk.run angle list).markers.size =
        walk.markers.size + list.countP (fun i => i.command = .mark) := by
  induction list generalizing walk with
  | nil => exact ⟨rfl, rfl⟩
  | cons i list ih =>
    obtain ⟨hbranches, hmarkers⟩ := walk.size_step angle i
    obtain ⟨hbranches', hmarkers'⟩ := ih (walk.step angle i)
    have hcons (command : Command) : (i :: list).countP (fun j => j.command = command) =
        [i].countP (fun j => j.command = command) +
          list.countP (fun j => j.command = command) := by
      rw [← List.countP_append, List.singleton_append]
    rw [Walk.run_cons, hbranches', hmarkers', hbranches, hmarkers, hcons, hcons]
    exact ⟨Nat.add_assoc _ _ _, Nat.add_assoc _ _ _⟩

/-- Another name for a marker changes no command. -/
theorem countP_command_eq {list list' : List Instruction}
    (h : List.Forall₂ Instruction.EqUpToName list list') (command : Command) :
    list.countP (fun i => i.command = command) = list'.countP (fun i => i.command = command) := by
  induction h with
  | nil => rfl
  | cons hsame _ ih => rw [List.countP_cons, List.countP_cons, ih, hsame.1]

/-- Names make no difference to how much is drawn and placed. -/
theorem size_run_eq {list list' : List Instruction}
    (h : List.Forall₂ Instruction.EqUpToName list list') (walk : Walk α) :
    (walk.run angle list').branches.size = (walk.run angle list).branches.size ∧
      (walk.run angle list').markers.size = (walk.run angle list).markers.size := by
  obtain ⟨hbranches, hmarkers⟩ := walk.size_run angle list
  obtain ⟨hbranches', hmarkers'⟩ := walk.size_run angle list'
  rw [hbranches, hmarkers, hbranches', hmarkers', countP_command_eq h, countP_command_eq h]
  exact ⟨rfl, rfl⟩

end Turtle

section

variable {α β : Type} [Scalar α] [Scalar β] [Trig α] (angle : α) {tree : FileTree}

/-- What draws a hierarchy places a marker for each leaf and draws a branch for each entry below the
root, one for each directory with children, and three or four for each leaf below the root. -/
theorem census_of_perform (hfiles : tree.filesAreLeaves) {base : UInt32}
    {hotspots : List (Hotspot β)} {list : List Instruction}
    (hp : Perform (tree.blueprint base hotspots) list) :
    let walk := Walk.start.run angle list
    let strokes := (tree :: tree.descendants).countP isParent + tree.descendants.length
    let tips := tree.descendants.countP isLeaf
    walk.markers.size = (tree :: tree.descendants).countP isLeaf ∧
      strokes + 3 * tips ≤ walk.branches.size ∧ walk.branches.size ≤ strokes + 4 * tips := by
  intro walk strokes tips
  by_cases hroot : tree.children = []
  · -- Nothing is drawn of a root that is a leaf.
    have hleaf : tree.isLeaf := List.isEmpty_iff.2 hroot
    obtain rfl := eq_mark_of_perform hp hroot
    have hbranches : walk.branches.size = 0 := rfl
    have hmarkers : walk.markers.size = 1 := rfl
    have hnone : (tree :: tree.descendants).countP isParent = 0 := by
      rw [descendants_of_isLeaf hleaf, List.countP_cons_of_neg (not_isParent_of_isLeaf hleaf),
        List.countP_nil]
    simp only [strokes, tips]
    rw [hbranches, hmarkers, hnone, descendants_of_isLeaf hleaf, List.countP_cons_of_pos hleaf]
    exact ⟨rfl, Nat.le_refl 0, Nat.le_refl 0⟩
  · have hleaf : ¬tree.isLeaf := fun hempty => hroot (List.isEmpty_iff.1 hempty)
    obtain ⟨parts, hdraw, hgrowth⟩ := exists_growth_of_perform angle hfiles hroot hp
    obtain ⟨below, hparts, hleast, hmost⟩ := hdraw.take hfiles
    have hbranches : walk.branches.size = below + 1 := by
      calc walk.branches.size
          = 0 + parts.length := hgrowth.size_eq
        _ = below + 1 := by rw [Nat.zero_add, hparts]
    have hmarkers : walk.markers.size = (tree :: tree.descendants).countP isLeaf := by
      calc walk.markers.size
          = 0 + tree.leaves.length := hgrowth.markers_size_eq
        _ = (tree :: tree.descendants).countP isLeaf := by rw [Nat.zero_add, length_leaves]
    -- The trunk of the root is the one branch more.
    have hstrokes : strokes =
        tree.descendants.countP isParent + tree.descendants.length + 1 := by
      simp only [strokes]
      rw [List.countP_cons_of_pos (isParent_of_not_isLeaf hfiles hleaf), Nat.add_right_comm]
    refine ⟨hmarkers, ?_, ?_⟩ <;> omega

end

variable {α β : Type} [Scalar α] [Scalar β] [Trig α]

/-- Symbols in names are neither replaced nor carried out, as long as none of them has a command and
stands behind a `)`. The expansion replaces the `F`s at the ends of the leaves' brackets and nothing
else, and the turtle carries out the drawing, up to what it calls the markers. So the numbers of
branches and markers are those of the hierarchy. -/
theorem skeleton_census (tree : FileTree) (hfiles : tree.filesAreLeaves)
    (hpaths : ∀ leaf ∈ tree.leaves, IsQuiet leaf.2.path) (hotspots : List (Hotspot β))
    (base : UInt32) :
    let system : LSystem α := LSystem.ofFileTree tree hotspots base
    let strokes := (tree :: tree.descendants).countP isParent + tree.descendants.length
    let tips := tree.descendants.countP isLeaf
    (∃ clusters : List Word, (∀ cluster ∈ clusters, cluster ∈ LSystem.organicTips) ∧
        Word.Tipped (tree.descendants.filter isLeaf) clusters system.start system.expand) ∧
      (∃ list, Perform (tree.blueprint base hotspots) list ∧
        List.Forall₂ Instruction.EqUpToName list (instructions system.expand)) ∧
      system.skeleton.markers.size = (tree :: tree.descendants).countP isLeaf ∧
      strokes + 3 * tips ≤ system.skeleton.branches.size ∧
      system.skeleton.branches.size ≤ strokes + 4 * tips := by
  intro system strokes tips
  have hexpand : system.expand =
      grown (organicTip (Generator.ofPath tree.path base)) 0 (tree.blueprint base hotspots) :=
    expand_ofFileTree hfiles hpaths hotspots base
  have htips : ∀ cluster ∈ (List.range (tree.descendants.filter isLeaf).length).map
      (organicTip (Generator.ofPath tree.path base)), cluster ∈ LSystem.organicTips := by
    intro cluster hmem
    obtain ⟨n, -, rfl⟩ := List.mem_map.1 hmem
    exact organicTip_mem _ n
  have hnames : ∀ step ∈ tree.blueprint base hotspots, step.Names IsQuiet :=
    names_of_mem_blueprint hfiles hpaths
  obtain ⟨list, hperform, hsame⟩ :=
    exists_perform_grown (organicTip_mem (Generator.ofPath tree.path base)) 0 hnames
  rw [← hexpand] at hsame
  -- The counts are those of a list that performs the drawing, and names do not count.
  refine ⟨⟨_, htips, tipped_ofFileTree hfiles hpaths hotspots base⟩, ⟨list, hperform, hsame⟩, ?_⟩
  obtain ⟨hcount, hleast, hmost⟩ := census_of_perform system.angle hfiles hperform
  obtain ⟨hbranches, hmarkers⟩ := size_run_eq system.angle hsame Walk.start
  exact ⟨hmarkers.trans hcount, Nat.le_trans hleast (Nat.le_of_eq hbranches.symm),
    Nat.le_trans (Nat.le_of_eq hbranches) hmost⟩

def FileTree.bracketed : FileTree :=
  .directory "F)" "F)G" [.directory "[" "[F(" [.file "@f:G" "[F(/@f:G" 80],
    .file "copy (2).txt" "G copy (2).txt" 3]

/-- Brackets and symbols of all kinds in the names change no count, nor does a `)` with no command
behind it. -/
theorem bracketed_census :
    FileTree.bracketed.filesAreLeaves ∧
      (∀ leaf ∈ FileTree.bracketed.leaves, IsQuiet leaf.2.path) ∧
      let system : LSystem Float32 :=
        LSystem.ofFileTree FileTree.bracketed ([] : List (Hotspot Float)) 7
      (∃ clusters : List Word, (∀ cluster ∈ clusters, cluster ∈ LSystem.organicTips) ∧
          Word.Tipped [.file "@f:G" "[F(/@f:G" 80, .file "copy (2).txt" "G copy (2).txt" 3]
            clusters system.start system.expand) ∧
        (∃ list, Perform (FileTree.bracketed.blueprint 7 ([] : List (Hotspot Float))) list ∧
          List.Forall₂ Instruction.EqUpToName list (instructions system.expand)) ∧
        system.skeleton.markers.size = 2 ∧
        11 ≤ system.skeleton.branches.size ∧ system.skeleton.branches.size ≤ 13 := by
  have hfiles : FileTree.bracketed.filesAreLeaves := by decide +kernel
  have hpaths : ∀ leaf ∈ FileTree.bracketed.leaves, IsQuiet leaf.2.path := by decide +kernel
  exact ⟨hfiles, hpaths, skeleton_census FileTree.bracketed hfiles hpaths [] 7⟩

/-- A `)` in a name ends the name early, and the turtle carries out the rest of it. -/
theorem closing_name_draws :
    ¬∀ (tree : FileTree) (hotspots : List (Hotspot Float)) (base : UInt32), tree.filesAreLeaves →
      let system : LSystem Float32 := LSystem.ofFileTree tree hotspots base
      system.skeleton.branches.size ≤
        (tree :: tree.descendants).countP isParent + tree.descendants.length +
          4 * tree.descendants.countP isLeaf := by
  intro hall
  -- The root is the only entry and a leaf, so there should be no branch at all.
  have hnone := hall (.file "a" "a)G" 1) [] 42 rfl
  have hdrawn : instructions (LSystem.ofFileTree (.file "a" "a)G" 1) ([] : List (Hotspot Float)) 42 :
      LSystem Float32).expand = [⟨.mark, some "f:a".toList⟩, ⟨.draw, none⟩] := by
    decide +kernel
  simp only [LSystem.skeleton] at hnone
  rw [interpret, hdrawn] at hnone
  exact absurd hnone (by decide)

end Arbor
