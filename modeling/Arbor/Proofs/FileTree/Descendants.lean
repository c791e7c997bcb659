import Arbor.Proofs.FileTree.Address

/-! The entries of a hierarchy in display order, without their addresses. What is counted of a
hierarchy is counted in this list. -/

namespace Arbor.FileTree

mutual

def descendants : FileTree → List FileTree
  | entry _ _ _ _ children => descendantsOf children

def descendantsOf : List FileTree → List FileTree
  | [] => []
  | child :: rest => child :: descendants child ++ descendantsOf rest

end

/-- Whether an entry is a directory with children. -/
def isParent (tree : FileTree) : Bool :=
  tree.kind = .directory && !tree.isLeaf

@[simp]
theorem descendants_entry (name path : String) (kind : EntryKind) (metadata : Option Metadata)
    (children : List FileTree) :
    (entry name path kind metadata children).descendants = descendantsOf children := rfl

theorem descendantsOf_cons (child : FileTree) (rest : List FileTree) :
    descendantsOf (child :: rest) = child :: child.descendants ++ descendantsOf rest := rfl

/-- What stands below some children is one of them or stands below one. -/
theorem exists_child_of_mem_descendantsOf {entry : FileTree} {children : List FileTree}
    (h : entry ∈ descendantsOf children) :
    ∃ child ∈ children, entry ∈ child :: child.descendants := by
  induction children with
  | nil => exact absurd h List.not_mem_nil
  | cons first rest ih =>
    rw [descendantsOf_cons, List.mem_append] at h
    rcases h with hfirst | hrest
    · exact ⟨first, List.mem_cons_self, hfirst⟩
    · obtain ⟨child, hchild, hentry⟩ := ih hrest
      exact ⟨child, List.mem_cons_of_mem _ hchild, hentry⟩

/-- Where files are leaves, they are so in every part of the hierarchy. -/
theorem filesAreLeaves_of_mem {tree entry : FileTree} (h : tree.filesAreLeaves)
    (hentry : entry ∈ tree :: tree.descendants) : entry.filesAreLeaves := by
  induction tree using induction_on_children with
  | entry name path kind metadata children ih =>
    rcases List.mem_cons.1 hentry with rfl | hbelow
    · exact h
    · obtain ⟨child, hchild, hmem⟩ := exists_child_of_mem_descendantsOf hbelow
      exact ih child hchild ((filesAreLeaves_entry_iff.1 h).2 child hchild) hmem

theorem descendants_of_isLeaf {tree : FileTree} (h : tree.isLeaf) : tree.descendants = [] := by
  obtain ⟨name, path, kind, metadata, children⟩ := tree
  obtain rfl : children = [] := List.isEmpty_iff.1 h
  rfl

theorem not_isParent_of_isLeaf {tree : FileTree} (h : tree.isLeaf) : ¬tree.isParent := by
  simp [isParent, h]

/-- Where files are leaves, what has children is a directory. -/
theorem isParent_of_not_isLeaf {tree : FileTree} (hfiles : tree.filesAreLeaves)
    (h : ¬tree.isLeaf) : tree.isParent := by
  have hkind : tree.kind = .directory := by
    obtain ⟨name, path, kind, metadata, children⟩ := tree
    obtain ⟨hkind, -⟩ := filesAreLeaves_entry_iff.1 hfiles
    exact hkind.resolve_right fun hempty => h (List.isEmpty_iff.2 hempty)
  simp [isParent, hkind, h]

/-- The leaves of a hierarchy are those of its entries that have no children. -/
theorem map_snd_leavesAt (tree : FileTree) (address : List Nat) :
    (tree.leavesAt address).map (·.2) = (tree :: tree.descendants).filter isLeaf := by
  induction tree using induction_on_children generalizing address with
  | entry name path kind metadata children ih =>
    -- The place goes up along the children, so they need an induction of their own.
    have hchildren (place : Nat) (list : List FileTree) (hlist : ∀ child ∈ list, child ∈ children) :
        (leavesFrom address place list).map (·.2) = (descendantsOf list).filter isLeaf := by
      induction list generalizing place with
      | nil => rfl
      | cons child rest ihrest =>
        rw [List.forall_mem_cons] at hlist
        rw [leavesFrom, List.map_append, ih child hlist.1, ihrest _ hlist.2, descendantsOf_cons,
          List.filter_append]
    cases children with
    | nil => rfl
    | cons first others =>
      rw [leavesAt_of_ne_nil (List.cons_ne_nil _ _), hchildren 0 _ fun _ h => h,
        descendants_entry, List.filter_cons_of_neg (by simp [isLeaf, FileTree.children])]

/-- Every entry without children is one of the leaves. -/
theorem exists_leaf_of_isLeaf {tree entry : FileTree} (h : entry ∈ tree :: tree.descendants)
    (hleaf : entry.isLeaf) : ∃ leaf ∈ tree.leaves, leaf.2 = entry := by
  have hmem : entry ∈ (tree.leavesAt []).map (·.2) := by
    rw [map_snd_leavesAt]
    exact List.mem_filter.2 ⟨h, hleaf⟩
  exact List.mem_map.1 hmem

/-- The leaves are counted by a walk through all entries. -/
theorem length_leaves (tree : FileTree) :
    tree.leaves.length = (tree :: tree.descendants).countP isLeaf := by
  rw [List.countP_eq_length_filter, ← map_snd_leavesAt tree [], List.length_map, leaves]

end Arbor.FileTree
