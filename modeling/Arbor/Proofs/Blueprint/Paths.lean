import Arbor.Proofs.Blueprint.Risk
import Arbor.Proofs.Blueprint.Steps

/-! The paths in a drawing. A step names no path, or that of an entry that is drawn as a leaf: one
without children, or a file below the root whatever its children. -/

namespace Arbor.FileTree

open Step

variable {β : Type} [Scalar β] {base : UInt32} {p : String → Prop}

theorem names_of_mem_trunkSteps {radius : β} {gen : Generator} :
    ∀ step ∈ trunkSteps radius gen, step.Names p := by
  simp [trunkSteps, Names]

theorem names_of_mem_branchSteps {radius : β} {shape : Shape β} :
    ∀ step ∈ branchSteps radius shape, step.Names p := by
  unfold branchSteps
  split <;> simp [Names]

theorem names_of_mem_limbs {riskAt : String → β} {radius turn : β} {place : Nat}
    {children : List FileTree}
    (h : ∀ child ∈ children, ∀ step ∈ limb base riskAt radius child, step.Names p) :
    ∀ step ∈ limbs base riskAt radius turn place children, step.Names p := by
  induction children generalizing place with
  | nil =>
    intro step h
    exact absurd h List.not_mem_nil
  | cons child rest ih =>
    rw [List.forall_mem_cons] at h
    rw [limbs, List.forall_mem_append]
    exact ⟨List.forall_mem_cons.2 ⟨trivial, List.forall_mem_cons.2 ⟨trivial, h.1⟩⟩,
      List.forall_mem_cons.2 ⟨trivial, ih h.2⟩⟩

/-- A child is drawn with all that grows on from it. -/
theorem cons_drawnBeyond_subset_drawnOf {child : FileTree} {children : List FileTree}
    (h : child ∈ children) : child :: child.drawnBeyond ⊆ drawnOf children := by
  induction children with
  | nil => exact absurd h List.not_mem_nil
  | cons first rest ih =>
    rw [drawnOf]
    rcases List.mem_cons.1 h with rfl | hrest
    · exact List.subset_append_left _ _
    · exact List.subset_append_of_subset_right _ (ih hrest)

/-- The drawing of an entry names no path but those of the leaves in it. -/
theorem names_of_mem_limb {riskAt : String → β} {radius : β} {tree : FileTree}
    (h : ∀ entry ∈ tree :: tree.drawnBeyond, ¬entry.isParent → p entry.path) :
    ∀ step ∈ limb base riskAt radius tree, step.Names p := by
  induction tree using induction_on_children generalizing radius with
  | entry name path kind metadata children ih =>
    rw [limb_entry, List.forall_mem_append]
    refine ⟨names_of_mem_branchSteps, ?_⟩
    split
    case isTrue hparent =>
      obtain ⟨rfl, -⟩ := hparent
      rw [List.forall_mem_append]
      refine ⟨names_of_mem_trunkSteps, names_of_mem_limbs ?_⟩
      intro child hchild
      apply ih child hchild
      intro entry hentry
      exact h entry (List.mem_cons_of_mem _ (cons_drawnBeyond_subset_drawnOf hchild hentry))
    case isFalse hleaf =>
      have hpath : p path := by
        apply h (entry name path kind metadata children) List.mem_cons_self
        change ¬(decide (kind = .directory) && !children.isEmpty) = true
        simpa using hleaf
      simp [tipSteps, Names, hpath]

/-- A drawing names the paths of the entries that are drawn without children, and the root's if it
is a leaf. -/
theorem names_of_mem_blueprint_of_drawn {tree : FileTree} (hroot : tree.isLeaf → p tree.path)
    (hdrawn : ∀ entry ∈ tree.drawn, ¬entry.isParent → p entry.path)
    {hotspots : List (Hotspot β)} : ∀ step ∈ tree.blueprint base hotspots, step.Names p := by
  obtain ⟨name, path, kind, metadata, children⟩ := tree
  rw [blueprint]
  split
  case isTrue hleaf =>
    have hpath : p path := hroot hleaf
    simpa [Names] using hpath
  case isFalse =>
    rw [List.forall_mem_append]
    refine ⟨names_of_mem_trunkSteps, names_of_mem_limbs ?_⟩
    intro child hchild
    apply names_of_mem_limb
    intro entry hentry
    exact hdrawn entry (cons_drawnBeyond_subset_drawnOf hchild hentry)

/-- Where no file has children, the entries that are drawn as leaves are leaves. -/
theorem names_of_mem_blueprint {tree : FileTree} (hfiles : tree.filesAreLeaves)
    (hpaths : ∀ leaf ∈ tree.leaves, p leaf.2.path) {hotspots : List (Hotspot β)} :
    ∀ step ∈ tree.blueprint base hotspots, step.Names p := by
  have hleaf : ∀ entry ∈ tree :: tree.descendants, entry.isLeaf → p entry.path := by
    intro entry hentry hleaf
    obtain ⟨leaf, hmem, rfl⟩ := exists_leaf_of_isLeaf hentry hleaf
    exact hpaths leaf hmem
  apply names_of_mem_blueprint_of_drawn (hleaf tree List.mem_cons_self)
  intro entry hdrawn hparent
  have hentry : entry ∈ tree :: tree.descendants :=
    List.mem_cons_of_mem _ (tree.drawn_subset hdrawn)
  apply hleaf entry hentry
  by_contra hnot
  exact hparent (isParent_of_not_isLeaf (filesAreLeaves_of_mem hfiles hentry) hnot)

/-! ### Readable paths -/

def LeafPathsAreReadable (tree : FileTree) : Prop :=
  ∀ leaf ∈ tree.leaves, ')' ∉ leaf.2.path.toList

/-- Whether what is left of the leaves' paths behind a `)` has no commands. -/
def LeafPathsAreQuiet (tree : FileTree) : Prop :=
  ∀ leaf ∈ tree.leaves, IsQuiet leaf.2.path

/-- A path without a `)` leaves nothing behind its payload. -/
theorem LeafPathsAreReadable.quiet {tree : FileTree} (h : tree.LeafPathsAreReadable) :
    tree.LeafPathsAreQuiet :=
  fun leaf hmem => isQuiet_of_close_not_mem (h leaf hmem)

/-- Whether no marker names a path with a `)`: neither a leaf has one, nor a file with children that
is drawn as a leaf. -/
def MarkedPathsAreReadable (tree : FileTree) : Prop :=
  (tree.isLeaf → ')' ∉ tree.path.toList) ∧
    ∀ entry ∈ tree.drawn, ¬entry.isParent → ')' ∉ entry.path.toList

/-- If no marker's path has a `)`, every payload is read to its end. -/
theorem MarkedPathsAreReadable.isReadable {tree : FileTree} (h : tree.MarkedPathsAreReadable)
    {hotspots : List (Hotspot β)} : ∀ step ∈ tree.blueprint base hotspots, step.IsReadable := by
  simp only [isReadable_iff_names]
  exact names_of_mem_blueprint_of_drawn h.1 h.2

/-- Where files are leaves, the paths of the leaves are all that matters. -/
theorem isReadable_of_mem_blueprint {tree : FileTree} (hfiles : tree.filesAreLeaves)
    (hpaths : tree.LeafPathsAreReadable) {hotspots : List (Hotspot β)} :
    ∀ step ∈ tree.blueprint base hotspots, step.IsReadable := by
  intro step hmem
  have hnames := names_of_mem_blueprint (p := fun path => ')' ∉ path.toList) hfiles hpaths step hmem
  exact isReadable_iff_names.2 hnames

end Arbor.FileTree
