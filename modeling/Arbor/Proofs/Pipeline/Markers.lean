import Arbor.Proofs.Blueprint.Limbs
import Arbor.Proofs.Blueprint.Paths
import Arbor.Scalar.Binary
import Arbor.Scene

/-! From a hierarchy through its system, the expansion and the turtle to the grown tree, and the
markers on that tree. -/

namespace Arbor

open TreePart Step Turtle

variable {α β : Type}

/-- Markers of leaves have their paths, and the lengths of their addresses as depths. -/
theorem path_depth_of_marks {number : TreePart → Nat} {branches : Array (Branch α)}
    {leaves : List (List Nat × FileTree)} {markers : List (Marker α)}
    (h : List.Forall₂ (Marks number branches) leaves markers)
    (hpaths : ∀ leaf ∈ leaves, leaf.2.path ≠ "") :
    (markers.map fun marker => (marker.path, marker.depth)) =
      leaves.map fun leaf => (leaf.2.path, leaf.1.length) := by
  induction h with
  | nil => rfl
  | cons hmark hrest ih =>
    rw [List.map_cons, List.map_cons, hmark.depth_eq,
      hmark.path_eq (hpaths _ List.mem_cons_self),
      ih fun leaf hmem => hpaths leaf (List.mem_cons_of_mem _ hmem)]

variable [Scalar α] [Scalar β] {tree : FileTree}

/-- The expanded word is that of the drawing with a tip in place of each sprout. -/
theorem expand_ofFileTree (hfiles : tree.filesAreLeaves) (hquiet : tree.LeafPathsAreQuiet)
    (hotspots : List (Hotspot β)) (base : UInt32) :
    (LSystem.ofFileTree tree hotspots base : LSystem α).expand =
      grown (organicTip (Generator.ofPath tree.path base)) 0 (tree.blueprint base hotspots) := by
  have hpass := derive_words (Generator.ofPath tree.path base) 0 (tree.blueprint base hotspots)
    (FileTree.names_of_mem_blueprint hfiles hquiet)
  rw [Generator.after_zero, Generator.ofPath] at hpass
  rw [LSystem.expand, LSystem.ofFileTree, Rules.expand_succ, hpass]
  rfl

/-- The expanded word makes the turtle carry out the drawing of the hierarchy, with some organic tip
at the end of each leaf. -/
theorem perform_ofFileTree (hfiles : tree.filesAreLeaves) (hpaths : tree.LeafPathsAreReadable)
    (hotspots : List (Hotspot β)) (base : UInt32) :
    Perform (tree.blueprint base hotspots)
      (instructions (LSystem.ofFileTree tree hotspots base : LSystem α).expand) := by
  rw [expand_ofFileTree hfiles hpaths.quiet]
  exact perform_grown (organicTip_mem _) 0 (FileTree.isReadable_of_mem_blueprint hfiles hpaths)

/-- A root that is a leaf is nothing but its marker. -/
theorem eq_mark_of_perform {base : UInt32} {hotspots : List (Hotspot β)} {list : List Instruction}
    (hp : Perform (tree.blueprint base hotspots) list) (hroot : tree.children = []) :
    list = [⟨.mark, some (tree.kind.payload tree.path)⟩] := by
  obtain ⟨name, path, kind, metadata, children⟩ := tree
  obtain rfl : children = [] := hroot
  obtain ⟨rest, hlist, hend⟩ := perform_cons hp Bool.false_ne_true
  obtain rfl : rest = [] := hend
  exact hlist

variable [Trig α] (angle : α)

/-- What draws a hierarchy whose root has children grows its parts, with a marker for each leaf. -/
theorem exists_growth_of_perform (hfiles : tree.filesAreLeaves) (hroot : tree.children ≠ [])
    {base : UInt32} {hotspots : List (Hotspot β)} {list : List Instruction}
    (hp : Perform (tree.blueprint base hotspots) list) :
    ∃ parts, DrawAll tree parts ∧
      Growth parts.idxOf parts tree.leaves Walk.start (Walk.start.run angle list) := by
  obtain ⟨name, path, kind, metadata, children⟩ := tree
  have hchildren : children ≠ [] := hroot
  obtain ⟨-, hbelow⟩ := FileTree.filesAreLeaves_entry_iff.1 hfiles
  rw [FileTree.blueprint, if_neg (by simpa using hchildren)] at hp
  obtain ⟨trunk, list, rfl, hend, htrunk⟩ := perform_trunkSteps angle hp
  obtain ⟨below, hdraw, hgrowth⟩ : AreLimbs angle [] 0 children list :=
    areLimbs_of_perform angle base _
      (fun child hmem _ _ _ hne hp => isLimb_of_perform angle base _ (hbelow child hmem) hne hp)
      hend
  have hall : DrawAll (.entry name path kind metadata children) (.trunk [] :: below) :=
    ⟨below, rfl, hdraw⟩
  refine ⟨_, hall, ?_⟩
  -- The root has a trunk without a limb, so its children stand on the first branch of all.
  have hnumber : Numbered (TreePart.trunk [] :: below).idxOf 0 ([.trunk []] ++ below) :=
    numbered_idxOf hall.inOrder.nodup
  generalize (TreePart.trunk [] :: below).idxOf = number at hnumber ⊢
  obtain ⟨hroot, hstands⟩ := htrunk number (.trunk []) Walk.start hnumber.left.head rfl rfl
  have hgrown := hgrowth number (Walk.start.run angle trunk)
    (by rw [hroot.size_eq]; exact hnumber.right) hstands.current_eq hroot.depth_eq
  rw [Walk.run_append, FileTree.leaves, FileTree.leavesAt_of_ne_nil hchildren]
  exact hroot.trans hgrown

/-- The tree of a hierarchy whose root has children consists of its parts, with a marker for each
leaf. -/
theorem exists_growth (hfiles : tree.filesAreLeaves) (hpaths : tree.LeafPathsAreReadable)
    (hroot : tree.children ≠ []) (hotspots : List (Hotspot β)) (base : UInt32) :
    ∃ parts, DrawAll tree parts ∧
      Growth parts.idxOf parts tree.leaves Walk.start (Walk.start.run angle
        (instructions (LSystem.ofFileTree tree hotspots base : LSystem α).expand)) :=
  exists_growth_of_perform angle hfiles hroot (perform_ofFileTree hfiles hpaths hotspots base)

/-- The markers of a grown tree are the leaves of its hierarchy in display order, each with the path
of its leaf and at the depth of the leaf's distance from the root. -/
theorem skeleton_markers (tree : FileTree) (hfiles : tree.filesAreLeaves)
    (hpaths : ∀ leaf ∈ tree.leaves, leaf.2.path ≠ "" ∧ ')' ∉ leaf.2.path.toList)
    (hotspots : List (Hotspot β)) (base : UInt32) :
    ((LSystem.ofFileTree tree hotspots base : LSystem α).skeleton.markers.toList.map
        fun marker => (marker.path, marker.depth)) =
      tree.leaves.map fun leaf => (leaf.2.path, leaf.1.length) := by
  have hreadable : tree.LeafPathsAreReadable := fun leaf hmem => (hpaths leaf hmem).2
  by_cases hroot : tree.children = []
  · have hlist := eq_mark_of_perform
      (perform_ofFileTree (α := α) hfiles hreadable hotspots base) hroot
    obtain ⟨name, path, kind, metadata, children⟩ := tree
    obtain rfl : children = [] := hroot
    -- The only marker is placed where the turtle starts.
    have hpath : path ≠ "" := (hpaths ([], _) List.mem_cons_self).1
    have hread : EntryKind.ofPayload (kind.payload path) = (kind, path) :=
      EntryKind.ofPayload_payload kind hpath
    have hmark : (Walk.start.mark (kind.payload path) : Walk α).markers.toList.map
        (fun marker => (marker.path, marker.depth)) = [(path, 0)] := by
      rw [Walk.mark, hread]
      rfl
    rw [LSystem.skeleton, interpret, hlist]
    exact hmark
  · obtain ⟨parts, -, hgrowth⟩ := exists_growth
      (LSystem.ofFileTree tree hotspots base : LSystem α).angle hfiles hreadable hroot hotspots base
    obtain ⟨placed, hplaced, hmarks⟩ := hgrowth.markers
    have hempty : (Walk.start : Walk α).markers.toList = [] := rfl
    rw [hempty, List.nil_append] at hplaced
    rw [← path_depth_of_marks hmarks fun leaf hmem => (hpaths leaf hmem).1, ← hplaced]
    rfl

def FileTree.symbolic : FileTree :=
  .directory "F" "F" [.directory "[" "[F(" [.file "@f:G" "[F(/@f:G" 80], .directory "d:" "d:+" []]

/-- Neither the symbols in the paths nor the empty directory change a marker. -/
theorem symbolic_markers :
    FileTree.symbolic.filesAreLeaves ∧
      (∀ leaf ∈ FileTree.symbolic.leaves, leaf.2.path ≠ "" ∧ ')' ∉ leaf.2.path.toList) ∧
      ((LSystem.ofFileTree FileTree.symbolic ([] : List (Hotspot Float)) 7 :
        LSystem Float32).skeleton.markers.toList.map fun marker => (marker.path, marker.depth)) =
        [("[F(/@f:G", 2), ("d:+", 1)] := by
  have hfiles : FileTree.symbolic.filesAreLeaves := by decide +kernel
  have hpaths : ∀ leaf ∈ FileTree.symbolic.leaves, leaf.2.path ≠ "" ∧ ')' ∉ leaf.2.path.toList := by
    decide +kernel
  exact ⟨hfiles, hpaths, skeleton_markers FileTree.symbolic hfiles hpaths [] 7⟩

end Arbor
