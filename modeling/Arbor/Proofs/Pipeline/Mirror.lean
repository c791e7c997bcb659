import Mathlib.Data.List.Sort
import Arbor.Landmark.Nest
import Arbor.Proofs.Pipeline.Markers
import Arbor.Proofs.Turtle.Rooted

/-! The grown tree as a mirror of its hierarchy: which branch bears which entry, and how they
fork. -/

namespace Arbor

open TreePart Turtle

def FileTree.HasPart (tree : FileTree) (twigs : List Nat → Nat) : TreePart → Prop
  | .limb address => address ≠ [] ∧ ∃ entry, tree.at? address = some entry
  | .trunk address => ∃ entry, tree.at? address = some entry ∧ entry.children ≠ []
  | .twig address k =>
    address ≠ [] ∧ (∃ leaf, tree.at? address = some leaf ∧ leaf.children = []) ∧ k < twigs address

/-- The parts in the drawing of a hierarchy are those that it has, with three twigs or four at each
leaf. -/
theorem TreePart.DrawAll.exists_twigs {tree : FileTree} {parts : List TreePart}
    (h : DrawAll tree parts) (hroot : tree.children ≠ []) :
    ∃ twigs : List Nat → Nat, (∀ address, twigs address = 3 ∨ twigs address = 4) ∧
      ∀ part, part ∈ parts ↔ tree.HasPart twigs part := by
  -- A leaf has the first three twigs in any case, so the last one tells how many there are.
  refine ⟨fun address => if twig address 3 ∈ parts then 4 else 3, ?_, ?_⟩
  · intro address
    by_cases hmem : twig address 3 ∈ parts
    · exact Or.inr (if_pos hmem)
    · exact Or.inl (if_neg hmem)
  intro part
  cases part with
  | limb address => exact h.limb_mem_iff
  | trunk address => exact h.trunk_mem_iff hroot
  | twig address k =>
    have hcount (hne : address ≠ []) {leaf : FileTree} (hleaf : tree.at? address = some leaf)
        (hchildren : leaf.children = []) :
        twig address k ∈ parts ↔ k < if twig address 3 ∈ parts then 4 else 3 := by
      obtain ⟨count, rfl | rfl, hmem⟩ := h.exists_twig_count hne hleaf hchildren
      · have hthree : twig address 3 ∉ parts := fun hmem' => Nat.lt_irrefl 3 ((hmem 3).1 hmem')
        rw [hmem, if_neg hthree]
      · have hthree : twig address 3 ∈ parts := (hmem 3).2 (Nat.lt_succ_self 3)
        rw [hmem, if_pos hthree]
    constructor
    · intro hmem
      obtain ⟨hne, leaf, hleaf, hchildren⟩ := h.leaf_of_twig_mem hmem
      exact ⟨hne, ⟨leaf, hleaf, hchildren⟩, (hcount hne hleaf hchildren).1 hmem⟩
    · rintro ⟨hne, ⟨leaf, hleaf, hchildren⟩, hlt⟩
      exact (hcount hne hleaf hchildren).2 hlt

variable {α : Type}

def Branch.DescendsFrom (branches : Array (Branch α)) (ancestor place : Nat) : Prop :=
  Relation.TransGen (fun i j => branches[j]?.bind (·.parent) = some i) ancestor place

/-- Whether the branches of a skeleton are the parts of a hierarchy, where `number` gives the places
of the parts and `twigs` their count at each leaf. -/
structure Mirrors (skeleton : Skeleton α) (tree : FileTree) (twigs : List Nat → Nat)
    (number : TreePart → Nat) : Prop where
  twigs_eq : ∀ address, twigs address = 3 ∨ twigs address = 4
  injective : ∀ first second, tree.HasPart twigs first → tree.HasPart twigs second →
    number first = number second → first = second
  /-- There is no other branch. -/
  exists_part : ∀ i < skeleton.branches.size, ∃ part, tree.HasPart twigs part ∧ number part = i
  root_trunk : number (.trunk []) = 0 ∧ ∃ branch, skeleton.branches[0]? = some branch ∧
    branch.parent = none ∧ branch.depth = 0
  trunk : ∀ address entry, address ≠ [] → tree.at? address = some entry → entry.children ≠ [] →
    ∃ branch, skeleton.branches[number (.trunk address)]? = some branch ∧
      branch.parent = some (number (.limb address)) ∧ branch.depth = address.length
  limb : ∀ address place entry, tree.at? (address ++ [place]) = some entry →
    ∃ branch, skeleton.branches[number (.limb (address ++ [place]))]? = some branch ∧
      branch.parent = some (number (.trunk address)) ∧
      branch.depth = (address ++ [place]).length
  twig : ∀ address k, tree.HasPart twigs (.twig address k) →
    Branch.DescendsFrom skeleton.branches (number (.limb address)) (number (.twig address k))
  /-- The trunk of an entry forks into the limbs of its children, in display order. -/
  fork : ∀ address entry, tree.at? address = some entry → entry.children ≠ [] →
    ∃ branch, skeleton.branches[number (.trunk address)]? = some branch ∧
      Fork.at? skeleton.branches (number (.trunk address)) =
        some ⟨branch.tip, (List.range entry.children.length).map fun place =>
          number (.limb (address ++ [place])), number (.trunk address)⟩
  /-- The markers are those of the leaves, in display order, each at the tip of its leaf's limb. -/
  markers_size : skeleton.markers.size = tree.leaves.length
  marker : ∀ (k : Nat) (leaf : List Nat × FileTree), tree.leaves[k]? = some leaf →
    ∃ marker branch, skeleton.markers[k]? = some marker ∧
      skeleton.branches[number (.limb leaf.1)]? = some branch ∧
      Marker.position marker = Branch.tip branch

theorem exists_getElem?_of_forall₂ {γ δ : Type} {r : γ → δ → Prop} {xs : List γ} {ys : List δ}
    (h : List.Forall₂ r xs ys) {i : Nat} {x : γ} (hx : xs[i]? = some x) :
    ∃ y, ys[i]? = some y ∧ r x y := by
  induction h generalizing i with
  | nil => simp at hx
  | cons hr hrest ih =>
    cases i with
    | zero =>
      obtain rfl := Option.some.inj hx
      exact ⟨_, rfl, hr⟩
    | succ i => exact ih hx

/-! ### The branches of the parts -/

section

variable {tree : FileTree} {parts : List TreePart} {branches : Array (Branch α)}

/-- At the place of each part stands a branch that is that part. -/
theorem exists_branch_of_mem (h : List.Forall₂ (Fits parts.idxOf) parts branches.toList)
    {part : TreePart} (hp : part ∈ parts) :
    ∃ branch, branches[parts.idxOf part]? = some branch ∧ Fits parts.idxOf part branch := by
  have hplace : parts[parts.idxOf part]? = some part := by
    rw [List.getElem?_eq_getElem (List.idxOf_lt_length_of_mem hp), List.getElem_idxOf]
  obtain ⟨branch, hbranch, hfits⟩ := exists_getElem?_of_forall₂ h hplace
  rw [Array.getElem?_toList] at hbranch
  exact ⟨branch, hbranch, hfits⟩

/-- Each branch is the part at whose place it stands. -/
theorem exists_part_of_getElem? (hnodup : parts.Nodup)
    (h : List.Forall₂ (Fits parts.idxOf) parts branches.toList) {i : Nat} {branch : Branch α}
    (hi : branches[i]? = some branch) :
    ∃ part ∈ parts, parts.idxOf part = i ∧ Fits parts.idxOf part branch := by
  rw [← Array.getElem?_toList] at hi
  obtain ⟨part, hpart, hfits⟩ := exists_getElem?_of_forall₂ h.flip hi
  obtain ⟨hlt, rfl⟩ := List.getElem?_eq_some_iff.1 hpart
  exact ⟨_, List.getElem_mem hlt, hnodup.idxOf_getElem i hlt, hfits⟩

/-- The branches that grow from a part's are those of the parts that grow from it. -/
theorem mem_childrenOf_idxOf (hnodup : parts.Nodup)
    (h : List.Forall₂ (Fits parts.idxOf) parts branches.toList) {part : TreePart}
    (hp : part ∈ parts) {i : Nat} :
    i ∈ Branch.childrenOf branches (parts.idxOf part) ↔
      ∃ child ∈ parts, child.parent? = some part ∧ parts.idxOf child = i := by
  rw [Branch.mem_childrenOf, Option.bind_eq_some_iff]
  constructor
  · rintro ⟨branch, hbranch, hparent⟩
    obtain ⟨child, hchild, hplace, hfits⟩ := exists_part_of_getElem? hnodup h hbranch
    rw [hfits.parent_eq] at hparent
    obtain ⟨other, hother, hsame⟩ := Option.map_eq_some_iff.1 hparent
    obtain rfl : part = other := (List.idxOf_inj hp).1 hsame.symm
    exact ⟨child, hchild, hother, hplace⟩
  · rintro ⟨child, hchild, hparent, rfl⟩
    obtain ⟨branch, hbranch, hfits⟩ := exists_branch_of_mem h hchild
    exact ⟨branch, hbranch, by rw [hfits.parent_eq, hparent, Option.map_some]⟩

/-- The branches on a trunk are the limbs of the children, in display order. -/
theorem childrenOf_trunk (hdraw : DrawAll tree parts)
    (h : List.Forall₂ (Fits parts.idxOf) parts branches.toList) {address : List Nat}
    {entry : FileTree} (hentry : tree.at? address = some entry) (hp : .trunk address ∈ parts) :
    Branch.childrenOf branches (parts.idxOf (.trunk address)) =
      (List.range entry.children.length).map fun place =>
        parts.idxOf (.limb (address ++ [place])) := by
  have hlimb (place : Nat) :
      .limb (address ++ [place]) ∈ parts ↔ place < entry.children.length := by
    rw [hdraw.limb_mem_iff, FileTree.at?_append, hentry, Option.bind_some, FileTree.at?_cons,
      ← Option.isSome_iff_exists]
    simp
  -- Both lists increase, so it is enough that they have the same elements.
  refine List.Pairwise.eq_of_mem_iff (r := (· < ·)) ?_ ?_ ?_
  · exact List.pairwise_lt_range.filter _
  · refine List.pairwise_map.2 (List.pairwise_lt_range.imp_of_mem ?_)
    intro first second hfirst hsecond hlt
    refine hdraw.inOrder.idxOf_lt ((hlimb first).2 (List.mem_range.1 hfirst))
      ((hlimb second).2 (List.mem_range.1 hsecond)) ?_
    exact key_lt_of_sibling rfl rfl hlt
  · intro i
    rw [mem_childrenOf_idxOf hdraw.inOrder.nodup h hp, List.mem_map]
    constructor
    · rintro ⟨child, hchild, hparent, rfl⟩
      obtain ⟨below, rfl, rfl⟩ := parent?_eq_trunk hparent
      have hne : below ≠ [] := (hdraw.limb_mem_iff.1 hchild).1
      rw [← List.dropLast_append_getLast hne, hlimb] at hchild
      refine ⟨below.getLast hne, List.mem_range.2 hchild, ?_⟩
      rw [List.dropLast_append_getLast hne]
    · rintro ⟨place, hplace, rfl⟩
      refine ⟨_, (hlimb place).2 (List.mem_range.1 hplace), ?_, rfl⟩
      rw [parent?, List.dropLast_concat]

/-- A part grows from its parent in the tree as it does in the hierarchy. -/
theorem descendsFrom_of_parent? (h : List.Forall₂ (Fits parts.idxOf) parts branches.toList)
    {part parent : TreePart} (hp : part ∈ parts) (hparent : part.parent? = some parent) :
    Branch.DescendsFrom branches (parts.idxOf parent) (parts.idxOf part) := by
  obtain ⟨branch, hbranch, hfits⟩ := exists_branch_of_mem h hp
  refine Relation.TransGen.single ?_
  rw [hbranch, Option.bind_some, hfits.parent_eq, hparent, Option.map_some]

/-- Twigs grow from their leaf's limb, over at most two others. -/
theorem descendsFrom_limb (h : List.Forall₂ (Fits parts.idxOf) parts branches.toList)
    {address : List Nat} {k : Nat} (hk : k < 4) (hmem : ∀ j ≤ k, .twig address j ∈ parts) :
    Branch.DescendsFrom branches (parts.idxOf (.limb address)) (parts.idxOf (.twig address k)) := by
  have hfirst := descendsFrom_of_parent? h (hmem 0 (Nat.zero_le k)) rfl
  have hnext {j : Nat} {parent : TreePart} (hj : j ≤ k)
      (hparent : (TreePart.twig address j).parent? = some parent) :=
    descendsFrom_of_parent? h (hmem j hj) hparent
  match k with
  | 0 => exact hfirst
  | 1 => exact hfirst.trans (hnext (Nat.le_refl 1) rfl)
  | 2 => exact hfirst.trans (hnext (Nat.le_refl 2) rfl)
  | 3 => exact (hfirst.trans (hnext (by decide : 2 ≤ 3) rfl)).trans (hnext (Nat.le_refl 3) rfl)

/-- Branches and markers that are those of the parts and of the leaves mirror the hierarchy. -/
theorem mirrors_of_fits (hdraw : DrawAll tree parts) (hroot : tree.children ≠ [])
    (h : List.Forall₂ (Fits parts.idxOf) parts branches.toList) {markers : Array (Marker α)}
    (hmarks : List.Forall₂ (Marks parts.idxOf branches) tree.leaves markers.toList) :
    ∃ twigs, Mirrors ⟨branches, markers⟩ tree twigs parts.idxOf := by
  obtain ⟨twigs, htwigs, hmem⟩ := hdraw.exists_twigs hroot
  have hbranch (part : TreePart) (hp : tree.HasPart twigs part) :=
    exists_branch_of_mem h ((hmem part).2 hp)
  refine ⟨twigs, {
    twigs_eq := htwigs
    injective := ?injective
    exists_part := ?exists_part
    root_trunk := ?root_trunk
    trunk := ?trunk
    limb := ?limb
    twig := ?twig
    fork := ?fork
    markers_size := hmarks.length_eq.symm
    marker := ?marker }⟩
  case injective =>
    intro first second hfirst _ heq
    exact (List.idxOf_inj ((hmem first).2 hfirst)).1 heq
  case exists_part =>
    intro i hi
    obtain ⟨part, hpart, hplace, -⟩ := exists_part_of_getElem? hdraw.inOrder.nodup h
      (Array.getElem?_eq_getElem hi)
    exact ⟨part, (hmem part).1 hpart, hplace⟩
  case root_trunk =>
    have hzero : parts.idxOf (.trunk []) = 0 := by
      obtain ⟨below, rfl, -⟩ := hdraw
      exact List.idxOf_cons_self
    obtain ⟨branch, hplace, hfits⟩ := hbranch (.trunk []) ⟨tree, rfl, hroot⟩
    rw [hzero] at hplace
    exact ⟨hzero, branch, hplace, hfits.parent_eq, hfits.atDepth⟩
  case trunk =>
    intro address entry hne hentry hchildren
    obtain ⟨branch, hplace, hfits⟩ := hbranch (.trunk address) ⟨entry, hentry, hchildren⟩
    obtain ⟨place, rest, rfl⟩ := List.exists_cons_of_ne_nil hne
    exact ⟨branch, hplace, hfits.parent_eq, hfits.atDepth⟩
  case limb =>
    intro address place entry hentry
    obtain ⟨branch, hplace, hfits⟩ := hbranch (.limb (address ++ [place]))
      ⟨List.concat_ne_nil place address, entry, hentry⟩
    refine ⟨branch, hplace, ?_, hfits.atDepth⟩
    rw [hfits.parent_eq, parent?, List.dropLast_concat, Option.map_some]
  case twig =>
    intro address k hk
    obtain ⟨hne, hleaf, hlt⟩ := hk
    have htwig (j : Nat) (hj : j ≤ k) : .twig address j ∈ parts :=
      (hmem _).2 ⟨hne, hleaf, Nat.lt_of_le_of_lt hj hlt⟩
    have hfour : k < 4 := by
      rcases htwigs address with hcount | hcount <;> omega
    exact descendsFrom_limb h hfour htwig
  case fork =>
    intro address entry hentry hchildren
    have htrunk : .trunk address ∈ parts := (hmem _).2 ⟨entry, hentry, hchildren⟩
    obtain ⟨branch, hplace, -⟩ := exists_branch_of_mem h htrunk
    have hfork := childrenOf_trunk hdraw h hentry htrunk
    refine ⟨branch, hplace, Fork.at?_eq_some_iff.2 ⟨branch, hplace, ?_, ?_⟩⟩
    · simpa [hfork] using hchildren
    · rw [hfork]
  case marker =>
    intro k leaf hleaf
    obtain ⟨marker, hmarker, hmark⟩ := exists_getElem?_of_forall₂ hmarks hleaf
    obtain ⟨branch, hplace, htip⟩ := Option.map_eq_some_iff.1 hmark.position_eq
    rw [Array.getElem?_toList] at hmarker
    exact ⟨marker, branch, hmarker, hplace, htip.symm⟩

end

/-! ### The nest -/

namespace Mirrors

variable {skeleton : Skeleton α} {tree : FileTree} {twigs : List Nat → Nat}
  {number : TreePart → Nat}

/-- The limbs of the root's children, and only those, grow from the first branch. -/
theorem childrenOf_zero (h : Mirrors skeleton tree twigs number) (hroot : tree.children ≠ []) :
    Branch.childrenOf skeleton.branches 0 =
      (List.range tree.children.length).map fun place => number (.limb [place]) := by
  obtain ⟨branch, -, hfork⟩ := h.fork [] tree rfl hroot
  obtain ⟨other, -, -, hsame⟩ := Fork.at?_eq_some_iff.1 hfork
  have hchildren := congrArg Fork.children hsame
  rw [h.root_trunk.1] at hchildren
  exact hchildren.symm

/-- The root's children have their limbs on the first branch, each in one bracket. -/
theorem exists_limb (h : Mirrors skeleton tree twigs number) {place : Nat}
    (hplace : place < tree.children.length) :
    ∃ branch, skeleton.branches[number (.limb [place])]? = some branch ∧
      branch.parent = some 0 ∧ branch.depth = 1 := by
  have hentry : tree.at? ([] ++ [place]) = some tree.children[place] := by
    rw [List.nil_append, FileTree.at?_cons, List.getElem?_eq_getElem hplace]
    rfl
  obtain ⟨branch, hbranch, hparent, hdepth⟩ := h.limb [] place _ hentry
  rw [h.root_trunk.1] at hparent
  exact ⟨branch, hbranch, hparent, hdepth⟩

/-- The trunk of the root is the whole trunk, since what grows from it has a bracket around it. -/
theorem trunkTip?_eq (h : Mirrors skeleton tree twigs number) (hroot : tree.children ≠ []) :
    Fork.trunkTip? skeleton.branches = some 0 := by
  obtain ⟨first, hfirst, -, -⟩ := h.root_trunk.2
  rw [← Array.getElem?_toList] at hfirst
  rw [Fork.trunkTip?]
  match hlist : skeleton.branches.toList with
  | [] => simp [hlist] at hfirst
  | [_] => rfl
  | _ :: second :: rest =>
    -- A branch that went on with the trunk would grow from it like the limbs, at depth one.
    have hnot : ¬(second.depth = 0 ∧ second.parent = some 0) := by
      rintro ⟨hdepth, hparent⟩
      have hsecond : skeleton.branches[1]? = some second := by
        rw [← Array.getElem?_toList, hlist]
        rfl
      have hmem : 1 ∈ Branch.childrenOf skeleton.branches 0 :=
        Branch.mem_childrenOf.2 (by rw [hsecond, Option.bind_some, hparent])
      rw [h.childrenOf_zero hroot] at hmem
      obtain ⟨place, hplace, hone⟩ := List.mem_map.1 hmem
      obtain ⟨branch, hbranch, -, hdepth'⟩ := h.exists_limb (List.mem_range.1 hplace)
      rw [hone, hsecond] at hbranch
      obtain rfl := Option.some.inj hbranch
      omega
    exact congrArg some (if_neg hnot)

end Mirrors

variable [Scalar α]

/-- A nest has an anchor for each branch that leaves it, in the same order. -/
theorem anchorsOf_forall₂ {branches : Array (Branch α)} {places : List Nat}
    (h : ∀ i ∈ places, i < branches.size) :
    List.Forall₂ (fun i anchor => branches[i]?.map (Nest.anchorOf · i) = some anchor) places
      (Nest.anchorsOf branches places) := by
  induction places with
  | nil => exact List.Forall₂.nil
  | cons i places ih =>
    have hi := Array.getElem?_eq_getElem (h i List.mem_cons_self)
    have hrest := ih fun j hj => h j (List.mem_cons_of_mem _ hj)
    -- There is a branch at each place, so no place is left out.
    rw [Nest.anchorsOf, List.filterMap_cons_some (by rw [hi]; rfl)]
    refine List.Forall₂.cons ?_ hrest
    rw [hi, Option.map_some]

variable [Trig α]

/-- Whether the nest of a skeleton sits on the root's trunk, with an anchor at its end for the limb
of each of the root's children. -/
def SeatsNest (skeleton : Skeleton α) (tree : FileTree) (number : TreePart → Nat)
    (platform : Platform α) : Prop :=
  ∃ nest trunk, Nest.root? skeleton.branches platform = some nest ∧
    skeleton.branches[0]? = some trunk ∧ nest.parent = 0 ∧
    nest.anchors.length = tree.children.length ∧
    ∀ place < tree.children.length, ∃ limb,
      skeleton.branches[number (.limb [place])]? = some limb ∧
      nest.anchors[place]? =
        some ⟨trunk.tip, limb.axis.normalizeOrZero, number (.limb [place])⟩

/-- In a tree that mirrors a hierarchy, the root's trunk ends in the nest. -/
theorem Mirrors.seatsNest {skeleton : Skeleton α} {tree : FileTree} {twigs : List Nat → Nat}
    {number : TreePart → Nat} (h : Mirrors skeleton tree twigs number) (hroot : tree.children ≠ [])
    (hjoined : ∀ branch ∈ skeleton.branches, ∀ i, branch.parent = some i →
      skeleton.branches[i]?.map (·.tip) = some branch.base) (platform : Platform α) :
    SeatsNest skeleton tree number platform := by
  obtain ⟨trunk, htrunk, hfork⟩ := h.fork [] tree rfl hroot
  rw [h.root_trunk.1] at htrunk hfork
  simp only [List.nil_append] at hfork
  have hplaces : ∀ i ∈ (List.range tree.children.length).map fun place => number (.limb [place]),
      i < skeleton.branches.size := by
    intro i hi
    obtain ⟨place, hplace, rfl⟩ := List.mem_map.1 hi
    obtain ⟨branch, hbranch, -, -⟩ := h.exists_limb (List.mem_range.1 hplace)
    exact (Array.getElem?_eq_some_iff.1 hbranch).1
  have hanchors := anchorsOf_forall₂ hplaces
  generalize hlimbs : (List.range tree.children.length).map
    (fun place => number (.limb [place])) = limbs at hanchors hfork
  have hnest : Nest.root? skeleton.branches platform = some (Nest.onFork ⟨trunk.tip, limbs, 0⟩
      trunk (Nest.anchorsOf skeleton.branches limbs) platform) := by
    rw [Nest.root?, h.trunkTip?_eq hroot]
    exact Nest.at?_of_fork hfork htrunk platform
  refine ⟨_, trunk, hnest, htrunk, rfl, ?_, ?_⟩
  · rw [Nest.onFork, ← hanchors.length_eq, ← hlimbs, List.length_map, List.length_range]
  · intro place hplace
    obtain ⟨limb, hlimb, hparent, -⟩ := h.exists_limb hplace
    have hplace' : limbs[place]? = some (number (.limb [place])) := by
      rw [← hlimbs, List.getElem?_map, List.getElem?_range hplace]
      rfl
    obtain ⟨anchor, hanchor, hof⟩ := exists_getElem?_of_forall₂ hanchors hplace'
    -- The limbs grow from the trunk, so each of them begins at its tip.
    have hbase := hjoined limb (Array.mem_of_getElem? hlimb) 0 hparent
    rw [htrunk, Option.map_some, Option.some_inj] at hbase
    rw [hlimb, Option.map_some, Nest.anchorOf, ← hbase] at hof
    exact ⟨limb, hlimb, hanchor.trans hof.symm⟩

/-- The grown tree of a directory with children mirrors its hierarchy: there is a branch for the
limb of each entry below the root, for the trunk of each entry with children and for three or four
twigs of each leaf, and no other, connected like the entries. Its nest sits on the root's trunk,
with an anchor for each of the root's children. -/
theorem skeleton_mirrors {β : Type} [Scalar β] (tree : FileTree) (hroot : tree.children ≠ [])
    (hfiles : tree.filesAreLeaves) (hpaths : ∀ leaf ∈ tree.leaves, ')' ∉ leaf.2.path.toList)
    (hotspots : List (Hotspot β)) (base : UInt32) :
    ∃ twigs number,
      Mirrors (LSystem.ofFileTree tree hotspots base : LSystem α).skeleton tree twigs number ∧
      Fork.trunkTip? (LSystem.ofFileTree tree hotspots base : LSystem α).skeleton.branches =
        some 0 ∧
      ∀ platform, SeatsNest (LSystem.ofFileTree tree hotspots base : LSystem α).skeleton tree number
        platform := by
  have hperform := perform_ofFileTree (α := α) hfiles hpaths hotspots base
  obtain ⟨parts, hdraw, hgrowth⟩ := exists_growth
    (LSystem.ofFileTree tree hotspots base : LSystem α).angle hfiles hpaths hroot hotspots base
  have hjoined := Walk.IsJoined.start.run (LSystem.ofFileTree tree hotspots base : LSystem α).angle
    (command_ne_move_of_perform hperform)
  obtain ⟨drawn, hdrawn, hfits⟩ := hgrowth.branches
  obtain ⟨placed, hplaced, hmarks⟩ := hgrowth.markers
  have hstart : (Walk.start : Walk α).branches.toList = [] := rfl
  have hstart' : (Walk.start : Walk α).markers.toList = [] := rfl
  rw [hstart, List.nil_append] at hdrawn
  rw [hstart', List.nil_append] at hplaced
  obtain ⟨twigs, hmirrors⟩ :=
    mirrors_of_fits hdraw hroot (hdrawn ▸ hfits) (hplaced ▸ hmarks)
  exact ⟨twigs, parts.idxOf, hmirrors, hmirrors.trunkTip?_eq hroot,
    hmirrors.seatsNest hroot hjoined.branches⟩

/-- The tree of a hierarchy with an empty directory, whose paths are full of symbols. -/
theorem symbolic_mirrors :
    FileTree.symbolic.children ≠ [] ∧ FileTree.symbolic.filesAreLeaves ∧
      (∀ leaf ∈ FileTree.symbolic.leaves, ')' ∉ leaf.2.path.toList) ∧
      ∃ twigs number,
        Mirrors (LSystem.ofFileTree FileTree.symbolic ([] : List (Hotspot Float)) 7 :
          LSystem Float32).skeleton FileTree.symbolic twigs number ∧
        Fork.trunkTip? (LSystem.ofFileTree FileTree.symbolic ([] : List (Hotspot Float)) 7 :
          LSystem Float32).skeleton.branches = some 0 ∧
        ∀ platform, SeatsNest (LSystem.ofFileTree FileTree.symbolic ([] : List (Hotspot Float)) 7 :
          LSystem Float32).skeleton FileTree.symbolic number platform := by
  have hroot : FileTree.symbolic.children ≠ [] := List.cons_ne_nil _ _
  have hfiles : FileTree.symbolic.filesAreLeaves := by decide +kernel
  have hpaths : ∀ leaf ∈ FileTree.symbolic.leaves, ')' ∉ leaf.2.path.toList := by decide +kernel
  exact ⟨hroot, hfiles, hpaths, skeleton_mirrors FileTree.symbolic hroot hfiles hpaths [] 7⟩

end Arbor
