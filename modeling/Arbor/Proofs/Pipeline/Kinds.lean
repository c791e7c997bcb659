import Arbor.Proofs.Pipeline.Markers

/-! The kinds that the markers of a grown tree name. A leaf inside its parent's drawing gets its
marker from the drawing's tip, which names every leaf a file; only a root that is a leaf names its
own kind. -/

namespace Arbor

open Turtle

namespace FileTree

/-- The root is a leaf of its hierarchy only if it has no children. -/
theorem address_ne_nil_of_mem_leaves {tree : FileTree} (hroot : tree.children ≠ [])
    {leaf : List Nat × FileTree} (hmem : leaf ∈ tree.leaves) : leaf.1 ≠ [] := by
  obtain ⟨rest, haddress, hnode, hleaf⟩ := mem_leavesAt.1 hmem
  rw [List.nil_append] at haddress
  rw [haddress]
  rintro rfl
  obtain rfl := Option.some.inj hnode
  exact hroot hleaf

end FileTree

variable {α β : Type}

/-- Below the root every marker is written as a file's. -/
theorem Marks.kind_eq {number : TreePart → Nat} {branches : Array (Branch α)}
    {leaf : List Nat × FileTree} {marker : Marker α} (h : Marks number branches leaf marker)
    (hpath : leaf.2.path ≠ "") : marker.kind = .file := by
  have hread := h.reads
  rw [EntryKind.ofPayload_payload _ hpath] at hread
  exact congrArg Prod.fst hread

/-- The markers of leaves below the root are files', whatever the leaves are. -/
theorem kinds_of_marks {number : TreePart → Nat} {branches : Array (Branch α)}
    {leaves : List (List Nat × FileTree)} {markers : List (Marker α)}
    (h : List.Forall₂ (Marks number branches) leaves markers)
    (hpaths : ∀ leaf ∈ leaves, leaf.2.path ≠ "") :
    markers.map (·.kind) = leaves.map fun _ => .file := by
  induction h with
  | nil => rfl
  | cons hmark hrest ih =>
    rw [List.map_cons, List.map_cons, hmark.kind_eq (hpaths _ List.mem_cons_self),
      ih fun leaf hmem => hpaths leaf (List.mem_cons_of_mem _ hmem)]

variable [Scalar α] [Scalar β] [Trig α]

/-- A leaf below the root is marked as a file, a root that is a leaf as what it is. -/
theorem map_kind_markers {tree : FileTree} (hfiles : tree.filesAreLeaves)
    (hpaths : ∀ leaf ∈ tree.leaves, leaf.2.path ≠ "" ∧ ')' ∉ leaf.2.path.toList)
    (hotspots : List (Hotspot β)) (base : UInt32) :
    (LSystem.ofFileTree tree hotspots base : LSystem α).skeleton.markers.toList.map (·.kind) =
      tree.leaves.map fun leaf => if leaf.1 = [] then leaf.2.kind else .file := by
  have hreadable : tree.LeafPathsAreReadable := fun leaf hmem => (hpaths leaf hmem).2
  by_cases hroot : tree.children = []
  · have hlist := eq_mark_of_perform
      (perform_ofFileTree (α := α) hfiles hreadable hotspots base) hroot
    obtain ⟨name, path, kind, metadata, children⟩ := tree
    obtain rfl : children = [] := hroot
    -- The only marker is written with the tag of the root itself.
    have hpath : path ≠ "" := (hpaths ([], _) List.mem_cons_self).1
    have hread : EntryKind.ofPayload (kind.payload path) = (kind, path) :=
      EntryKind.ofPayload_payload kind hpath
    have hmark : (Walk.start.mark (kind.payload path) : Walk α).markers.toList.map (·.kind) =
        [kind] := by
      rw [Walk.mark, hread]
      rfl
    rw [LSystem.skeleton, interpret, hlist]
    exact hmark
  · obtain ⟨parts, -, hgrowth⟩ := exists_growth
      (LSystem.ofFileTree tree hotspots base : LSystem α).angle hfiles hreadable hroot hotspots base
    obtain ⟨placed, hplaced, hmarks⟩ := hgrowth.markers
    have hempty : (Walk.start : Walk α).markers.toList = [] := rfl
    rw [hempty, List.nil_append] at hplaced
    -- All markers stand for entries below the root, which get the tag of a file.
    have hkinds := kinds_of_marks hmarks fun leaf hmem => (hpaths leaf hmem).1
    have hbelow : (tree.leaves.map fun leaf => if leaf.1 = [] then leaf.2.kind else .file) =
        tree.leaves.map fun _ => .file :=
      List.map_congr_left fun leaf hmem =>
        if_neg (FileTree.address_ne_nil_of_mem_leaves hroot hmem)
    rw [hbelow, ← hkinds, ← hplaced]
    rfl

/-- The markers of a grown tree name a root that is a leaf by its kind and all other leaves as
files. So they agree with the hierarchy on every kind if and only if no directory below the root is
without children. -/
theorem skeleton_kinds (tree : FileTree) (hfiles : tree.filesAreLeaves)
    (hpaths : ∀ leaf ∈ tree.leaves, leaf.2.path ≠ "" ∧ ')' ∉ leaf.2.path.toList)
    (hotspots : List (Hotspot β)) (base : UInt32) :
    let kinds :=
      (LSystem.ofFileTree tree hotspots base : LSystem α).skeleton.markers.toList.map (·.kind)
    kinds = tree.leaves.map (fun leaf => if leaf.1 = [] then leaf.2.kind else .file) ∧
      (kinds = tree.leaves.map (fun leaf => leaf.2.kind) ↔
        ∀ leaf ∈ tree.leaves, leaf.1 ≠ [] → leaf.2.kind = .file) := by
  intro kinds
  have hkinds : kinds =
      tree.leaves.map fun leaf => if leaf.1 = [] then leaf.2.kind else .file :=
    map_kind_markers hfiles hpaths hotspots base
  refine ⟨hkinds, ?_⟩
  rw [hkinds, List.map_inj_left]
  refine forall₂_congr fun leaf _ => ?_
  by_cases haddress : leaf.1 = []
  · rw [if_pos haddress]
    exact iff_of_true rfl fun hne => absurd haddress hne
  · rw [if_neg haddress, imp_iff_right haddress]
    exact eq_comm

/-- A file and an empty directory at different depths, and the marks of both. -/
theorem symbolic_kinds :
    FileTree.symbolic.filesAreLeaves ∧
      (∀ leaf ∈ FileTree.symbolic.leaves, leaf.2.path ≠ "" ∧ ')' ∉ leaf.2.path.toList) ∧
      (LSystem.ofFileTree FileTree.symbolic ([] : List (Hotspot Float)) 7 :
        LSystem Float32).skeleton.markers.toList.map (·.kind) = [.file, .file] ∧
      ¬∀ leaf ∈ FileTree.symbolic.leaves, leaf.1 ≠ [] → leaf.2.kind = .file := by
  have hfiles : FileTree.symbolic.filesAreLeaves := by decide +kernel
  have hpaths : ∀ leaf ∈ FileTree.symbolic.leaves, leaf.2.path ≠ "" ∧ ')' ∉ leaf.2.path.toList := by
    decide +kernel
  obtain ⟨hkinds, hagree⟩ := skeleton_kinds (α := Float32) FileTree.symbolic hfiles hpaths
    ([] : List (Hotspot Float)) 7
  refine ⟨hfiles, hpaths, hkinds, ?_⟩
  rw [← hagree, hkinds]
  decide +kernel

/-- A directory without children is marked as a file when it is not the root. -/
theorem empty_directory_marked_as_file :
    ¬∀ (tree : FileTree) (hotspots : List (Hotspot Float)) (base : UInt32), tree.filesAreLeaves →
      (∀ leaf ∈ tree.leaves, leaf.2.path ≠ "" ∧ ')' ∉ leaf.2.path.toList) →
      (LSystem.ofFileTree tree hotspots base : LSystem Float32).skeleton.markers.toList.map
        (·.kind) = tree.leaves.map fun leaf => leaf.2.kind := by
  intro hall
  have hfiles : (FileTree.directory "r" "r" [.directory "e" "r/e" []]).filesAreLeaves := by
    decide +kernel
  have hpaths : ∀ leaf ∈ (FileTree.directory "r" "r" [.directory "e" "r/e" []]).leaves,
      leaf.2.path ≠ "" ∧ ')' ∉ leaf.2.path.toList := by
    decide +kernel
  have hkinds := hall _ [] 42 hfiles hpaths
  rw [map_kind_markers hfiles hpaths] at hkinds
  exact absurd hkinds (by decide +kernel)

end Arbor
