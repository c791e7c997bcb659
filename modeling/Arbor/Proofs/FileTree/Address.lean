import Arbor.FileTree.Basic

/-! Entries of a hierarchy by address. The address of an entry is the list of places at which one
goes down to it from the root, so its length is the distance from the root. -/

namespace Arbor.FileTree

def at? (tree : FileTree) : List Nat → Option FileTree
  | [] => some tree
  | place :: address => tree.children[place]?.bind fun child => child.at? address

mutual

def filesAreLeaves : FileTree → Bool
  | entry _ _ kind _ children =>
    (kind = .directory || children.isEmpty) && allFilesAreLeaves children

def allFilesAreLeaves : List FileTree → Bool
  | [] => true
  | child :: rest => child.filesAreLeaves && allFilesAreLeaves rest

end

mutual

def leavesAt (address : List Nat) : FileTree → List (List Nat × FileTree)
  | entry name path kind metadata children =>
    if children.isEmpty then [(address, entry name path kind metadata children)]
    else leavesFrom address 0 children

def leavesFrom (address : List Nat) (place : Nat) : List FileTree → List (List Nat × FileTree)
  | [] => []
  | child :: rest => leavesAt (address ++ [place]) child ++ leavesFrom address (place + 1) rest

end

/-- The leaves of a hierarchy in display order, each with its address. -/
def leaves (tree : FileTree) : List (List Nat × FileTree) :=
  tree.leavesAt []

/-- Induction over a hierarchy, from the children of an entry to the entry. -/
@[elab_as_elim]
theorem induction_on_children {motive : FileTree → Prop} (tree : FileTree)
    (entry : ∀ name path kind metadata children, (∀ child ∈ children, motive child) →
      motive (entry name path kind metadata children)) : motive tree := by
  -- The recursor also asks for a motive for lists of children.
  refine @FileTree.rec motive (fun children => ∀ child ∈ children, motive child)
    entry ?_ ?_ tree
  · intro child h
    exact absurd h List.not_mem_nil
  · intro first rest hfirst hrest child h
    rcases List.mem_cons.1 h with rfl | h
    · exact hfirst
    · exact hrest child h

@[simp]
theorem at?_nil (tree : FileTree) : tree.at? [] = some tree := rfl

@[simp]
theorem at?_cons (tree : FileTree) (place : Nat) (address : List Nat) :
    tree.at? (place :: address) = tree.children[place]?.bind fun child => child.at? address := rfl

/-- An address in two parts leads through the entry at the first part. -/
theorem at?_append (tree : FileTree) (first second : List Nat) :
    tree.at? (first ++ second) = (tree.at? first).bind fun entry => entry.at? second := by
  induction first generalizing tree with
  | nil => rfl
  | cons place first ih =>
    rw [List.cons_append, at?_cons, at?_cons]
    cases tree.children[place]? with
    | none => rfl
    | some child => exact ih child

theorem allFilesAreLeaves_iff {children : List FileTree} :
    allFilesAreLeaves children ↔ ∀ child ∈ children, child.filesAreLeaves := by
  induction children with
  | nil => simp [allFilesAreLeaves]
  | cons child rest ih => simp [allFilesAreLeaves, ih]

/-- Files are leaves at an entry and in each of its children. -/
theorem filesAreLeaves_entry_iff {name path : String} {kind : EntryKind}
    {metadata : Option Metadata} {children : List FileTree} :
    (entry name path kind metadata children).filesAreLeaves ↔
      (kind = .directory ∨ children = []) ∧ ∀ child ∈ children, child.filesAreLeaves := by
  rw [filesAreLeaves, Bool.and_eq_true, allFilesAreLeaves_iff]
  simp

theorem leavesAt_of_isEmpty {name path : String} {kind : EntryKind} {metadata : Option Metadata}
    (address : List Nat) :
    leavesAt address (entry name path kind metadata []) =
      [(address, entry name path kind metadata [])] := by
  simp [leavesAt]

theorem leavesAt_of_ne_nil {name path : String} {kind : EntryKind} {metadata : Option Metadata}
    {children : List FileTree} (h : children ≠ []) (address : List Nat) :
    leavesAt address (entry name path kind metadata children) =
      leavesFrom address 0 children := by
  simp [leavesAt, h]

/-- The leaves of some children, by the child that they are in. -/
theorem mem_leavesFrom {children : List FileTree} {address : List Nat} {place : Nat}
    {leaf : List Nat × FileTree} :
    leaf ∈ leavesFrom address place children ↔
      ∃ (i : Nat) (child : FileTree), children[i]? = some child ∧
        leaf ∈ child.leavesAt (address ++ [place + i]) := by
  induction children generalizing place with
  | nil => simp [leavesFrom]
  | cons child rest ih =>
    rw [leavesFrom, List.mem_append, ih]
    constructor
    · rintro (h | ⟨i, other, hi, h⟩)
      · exact ⟨0, child, rfl, h⟩
      · exact ⟨i + 1, other, hi, by rwa [Nat.add_assoc, Nat.add_comm 1] at h⟩
    · rintro ⟨i, other, hi, h⟩
      cases i with
      | zero =>
        obtain rfl : child = other := by simpa using hi
        exact Or.inl h
      | succ i => exact Or.inr ⟨i, other, hi, by rwa [Nat.add_assoc, Nat.add_comm 1]⟩

/-- The leaves listed below an address are the entries without children, under the addresses at
which they are found. -/
theorem mem_leavesAt {tree : FileTree} {address : List Nat} {leaf : List Nat × FileTree} :
    leaf ∈ tree.leavesAt address ↔
      ∃ rest, leaf.1 = address ++ rest ∧ tree.at? rest = some leaf.2 ∧ leaf.2.children = [] := by
  induction tree using induction_on_children generalizing address with
  | entry name path kind metadata children ih =>
    cases children with
    | nil =>
      -- There is no entry below a leaf, so its own address is the only one.
      rw [leavesAt_of_isEmpty, List.mem_singleton]
      constructor
      · rintro rfl
        exact ⟨[], by simp [FileTree.children]⟩
      · rintro ⟨rest, haddress, hnode, -⟩
        cases rest with
        | nil => exact Prod.ext (by simpa using haddress) (by simpa using hnode.symm)
        | cons place rest => simp [FileTree.children] at hnode
    | cons first others =>
      rw [leavesAt_of_ne_nil (List.cons_ne_nil _ _), mem_leavesFrom]
      constructor
      · rintro ⟨i, child, hi, h⟩
        obtain ⟨rest, haddress, hnode, hleaf⟩ := (ih child (List.mem_of_getElem? hi)).1 h
        refine ⟨i :: rest, by simp [haddress], ?_, hleaf⟩
        rw [at?_cons, FileTree.children, hi, Option.bind_some, hnode]
      · rintro ⟨rest, haddress, hnode, hleaf⟩
        cases rest with
        | nil =>
          have heq : entry name path kind metadata (first :: others) = leaf.2 := by
            simpa using hnode
          rw [← heq] at hleaf
          exact absurd hleaf (List.cons_ne_nil _ _)
        | cons i rest =>
          obtain ⟨child, hi, hrest⟩ := Option.bind_eq_some_iff.1 hnode
          refine ⟨i, child, hi, (ih child (List.mem_of_getElem? hi)).2 ⟨rest, ?_, hrest, hleaf⟩⟩
          rw [haddress, Nat.zero_add, List.append_assoc, List.singleton_append]

end Arbor.FileTree
