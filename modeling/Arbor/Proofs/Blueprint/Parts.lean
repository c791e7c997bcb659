import Mathlib.Data.List.Nodup
import Arbor.Proofs.FileTree.Address

/-! The parts that the drawing of a hierarchy consists of, in drawing order. Their places in that
order are the places of the drawn branches. -/

namespace Arbor

/-- What a drawn branch is in its hierarchy: the limb that bears an entry, the trunk of an entry
with children, or a twig at the tip of a leaf's limb. -/
inductive TreePart
  | limb (address : List Nat)
  | trunk (address : List Nat)
  | twig (address : List Nat) (place : Nat)
  deriving DecidableEq, Repr

namespace TreePart

def address : TreePart → List Nat
  | limb address => address
  | trunk address => address
  | twig address _ => address

/-- The part that another one grows from. Twigs come in clusters of three or four, in which the
last one of four grows from the third. -/
def parent? : TreePart → Option TreePart
  | limb address => some (trunk address.dropLast)
  | trunk [] => none
  | trunk (place :: address) => some (limb (place :: address))
  | twig address 0 => some (limb address)
  | twig address 3 => some (twig address 2)
  | twig address _ => some (twig address 0)

/-- What grows from a trunk is the limb of one of the entry's children. -/
theorem parent?_eq_trunk {part : TreePart} {address : List Nat}
    (h : part.parent? = some (trunk address)) :
    ∃ below, part = limb below ∧ below.dropLast = address := by
  cases part with
  | limb below => exact ⟨below, rfl, by simpa [parent?] using h⟩
  | trunk other => cases other <;> simp [parent?] at h
  | twig other k => rcases k with _ | _ | _ | _ | k <;> simp [parent?] at h

def twigs (address : List Nat) (count : Nat) : List TreePart :=
  (List.range count).map (twig address)

def AreOf (address : List Nat) (entry : FileTree) (parts : List TreePart) : Prop :=
  if entry.children = [] then
    parts = limb address :: twigs address 3 ∨ parts = limb address :: twigs address 4
  else parts = [limb address, trunk address]

mutual

def Draw (address : List Nat) : FileTree → List TreePart → Prop
  | .entry name path kind metadata children, parts =>
    ∃ own below, parts = own ++ below ∧
      AreOf address (.entry name path kind metadata children) own ∧
      DrawFrom address 0 children below

def DrawFrom (address : List Nat) (place : Nat) : List FileTree → List TreePart → Prop
  | [], parts => parts = []
  | child :: rest, parts =>
    ∃ first others, parts = first ++ others ∧ Draw (address ++ [place]) child first ∧
      DrawFrom address (place + 1) rest others

end

def DrawAll (tree : FileTree) (parts : List TreePart) : Prop :=
  ∃ below, parts = trunk [] :: below ∧ DrawFrom [] 0 tree.children below

theorem areOf_of_leaf (address : List Nat) (entry : FileTree) (h : entry.children = [])
    {count : Nat} (hcount : count = 3 ∨ count = 4) :
    AreOf address entry (limb address :: twigs address count) := by
  rw [AreOf, if_pos h]
  rcases hcount with rfl | rfl
  · exact Or.inl rfl
  · exact Or.inr rfl

theorem areOf_of_children (address : List Nat) (entry : FileTree) (h : entry.children ≠ []) :
    AreOf address entry [limb address, trunk address] := by
  rw [AreOf, if_neg h]

theorem address_of_areOf {address : List Nat} {entry : FileTree} {parts : List TreePart}
    (h : AreOf address entry parts) {part : TreePart} (hp : part ∈ parts) :
    part.address = address := by
  unfold AreOf at h
  split at h
  · rcases h with rfl | rfl <;> rcases List.mem_cons.1 hp with rfl | hp <;>
      first
      | rfl
      | (obtain ⟨k, -, rfl⟩ := List.mem_map.1 hp; rfl)
  · subst h
    simp only [List.mem_cons, List.not_mem_nil, or_false] at hp
    rcases hp with rfl | rfl <;> rfl

/-- The parts of some children, sorted by the child that they belong to. -/
theorem DrawFrom.exists_parts {address : List Nat} {place : Nat} {children : List FileTree}
    {parts : List TreePart} (h : DrawFrom address place children parts) :
    ∃ below : Nat → List TreePart,
      (∀ i child, children[i]? = some child → Draw (address ++ [place + i]) child (below i)) ∧
      ∀ part, part ∈ parts ↔ ∃ i, i < children.length ∧ part ∈ below i := by
  induction children generalizing place parts with
  | nil =>
    obtain rfl : parts = [] := h
    exact ⟨fun _ => [], by simp, by simp⟩
  | cons child rest ih =>
    obtain ⟨first, others, rfl, hfirst, hothers⟩ := h
    obtain ⟨below, hbelow, hmem⟩ := ih hothers
    -- The first child comes in front, and all others move up by one place.
    refine ⟨fun i => if i = 0 then first else below (i - 1), ?_, ?_⟩
    · intro i other hi
      cases i with
      | zero =>
        obtain rfl : child = other := by simpa using hi
        simpa using hfirst
      | succ i =>
        have h := hbelow i other (by simpa using hi)
        rwa [Nat.add_assoc, Nat.add_comm 1] at h
    · intro part
      rw [List.mem_append, hmem]
      constructor
      · rintro (hp | ⟨i, hi, hp⟩)
        · exact ⟨0, by simp, by simpa using hp⟩
        · exact ⟨i + 1, by simpa using hi, by simpa using hp⟩
      · rintro ⟨i, hi, hp⟩
        cases i with
        | zero => exact Or.inl (by simpa using hp)
        | succ i => exact Or.inr ⟨i, by simpa using hi, by simpa using hp⟩

/-- Every part belongs to an entry at or below the one that is drawn. -/
theorem Draw.exists_entry {tree : FileTree} {address : List Nat} {parts : List TreePart}
    (h : Draw address tree parts) {part : TreePart} (hp : part ∈ parts) :
    ∃ rest entry, part.address = address ++ rest ∧ tree.at? rest = some entry := by
  induction tree using FileTree.induction_on_children generalizing address parts with
  | entry name path kind metadata children ih =>
    obtain ⟨own, below, rfl, hown, hbelow⟩ := h
    -- The part is the entry's own, or that of a child and so one place further down.
    rcases List.mem_append.1 hp with hp | hp
    · exact ⟨[], _, by rw [address_of_areOf hown hp, List.append_nil], FileTree.at?_nil _⟩
    · obtain ⟨parts, hparts, hmem⟩ := hbelow.exists_parts
      obtain ⟨i, hi, hp⟩ := (hmem part).1 hp
      have hchild : children[i]? = some children[i] := List.getElem?_eq_getElem hi
      obtain ⟨rest, entry, haddress, hentry⟩ :=
        ih children[i] (List.getElem_mem hi) (hparts i _ hchild) hp
      refine ⟨i :: rest, entry, ?_, ?_⟩
      · rw [haddress, Nat.zero_add, List.append_assoc, List.singleton_append]
      · rw [FileTree.at?_cons, FileTree.children, hchild, Option.bind_some, hentry]

/-- Every part of some children belongs to an entry at or below one of them. -/
theorem DrawFrom.exists_entry {address : List Nat} {place : Nat} {children : List FileTree}
    {parts : List TreePart} (h : DrawFrom address place children parts) {part : TreePart}
    (hp : part ∈ parts) :
    ∃ i rest child entry, children[i]? = some child ∧
      part.address = address ++ (place + i) :: rest ∧ child.at? rest = some entry := by
  obtain ⟨below, hbelow, hmem⟩ := h.exists_parts
  obtain ⟨i, hi, hp⟩ := (hmem part).1 hp
  have hchild : children[i]? = some children[i] := List.getElem?_eq_getElem hi
  obtain ⟨rest, entry, haddress, hentry⟩ := (hbelow i _ hchild).exists_entry hp
  refine ⟨i, rest, children[i], entry, hchild, ?_, hentry⟩
  rw [haddress, List.append_assoc, List.singleton_append]

/-- If at the address of each entry of each child stand its own parts, so they do among the parts of
all children. -/
theorem DrawFrom.exists_own_of_children {address : List Nat} {place : Nat}
    {children : List FileTree} {parts : List TreePart} (h : DrawFrom address place children parts)
    (ih : ∀ child ∈ children, ∀ {address : List Nat} {parts : List TreePart},
      Draw address child parts → ∀ {rest : List Nat} {entry : FileTree},
      child.at? rest = some entry →
      ∃ own, AreOf (address ++ rest) entry own ∧
        ∀ part : TreePart, part.address = address ++ rest → (part ∈ parts ↔ part ∈ own))
    {i : Nat} {child : FileTree} (hchild : children[i]? = some child) {rest : List Nat}
    {entry : FileTree} (hentry : child.at? rest = some entry) :
    ∃ own, AreOf (address ++ (place + i) :: rest) entry own ∧
      ∀ part : TreePart, part.address = address ++ (place + i) :: rest →
        (part ∈ parts ↔ part ∈ own) := by
  obtain ⟨below, hbelow, hmem⟩ := h.exists_parts
  obtain ⟨hi, -⟩ := List.getElem?_eq_some_iff.1 hchild
  obtain ⟨own, hown, hmem'⟩ := ih child (List.mem_of_getElem? hchild) (hbelow i _ hchild) hentry
  rw [List.append_assoc, List.singleton_append] at hown hmem'
  refine ⟨own, hown, ?_⟩
  intro part hpart
  rw [← hmem' part hpart, hmem]
  constructor
  · rintro ⟨j, hj, hp⟩
    -- The address says which child it is.
    obtain ⟨rest', -, haddress, -⟩ :=
      (hbelow j _ (List.getElem?_eq_getElem hj)).exists_entry hp
    rw [hpart, List.append_assoc, List.singleton_append] at haddress
    obtain ⟨rfl, -⟩ : i = j ∧ rest = rest' := by simpa using haddress
    exact hp
  · intro hp
    exact ⟨i, hi, hp⟩

/-- At the address of each entry stand its own parts and no others. -/
theorem Draw.exists_own {tree : FileTree} {address : List Nat} {parts : List TreePart}
    (h : Draw address tree parts) {rest : List Nat} {entry : FileTree}
    (hentry : tree.at? rest = some entry) :
    ∃ own, AreOf (address ++ rest) entry own ∧
      ∀ part : TreePart, part.address = address ++ rest → (part ∈ parts ↔ part ∈ own) := by
  induction tree using FileTree.induction_on_children generalizing address parts rest entry with
  | entry name path kind metadata children ih =>
    obtain ⟨own, below, rfl, hown, hbelow⟩ := h
    cases rest with
    | nil =>
      obtain rfl : FileTree.entry name path kind metadata children = entry := by
        simpa using hentry
      refine ⟨own, by rwa [List.append_nil], ?_⟩
      intro part hpart
      -- No part of a child is here, since its address is longer.
      rw [List.mem_append, or_iff_left]
      intro hp
      obtain ⟨i, rest, -, -, -, haddress, -⟩ := hbelow.exists_entry hp
      rw [hpart] at haddress
      simp at haddress
    | cons i rest =>
      obtain ⟨child, hchild, hrest⟩ := Option.bind_eq_some_iff.1 hentry
      obtain ⟨own', hown', hmem⟩ := hbelow.exists_own_of_children
        (fun child hmem _ _ hdraw _ _ => ih child hmem hdraw) hchild hrest
      rw [Nat.zero_add] at hown' hmem
      refine ⟨own', hown', ?_⟩
      intro part hpart
      -- None of the entry's own parts is here, since their address is shorter.
      rw [← hmem part hpart, List.mem_append, or_iff_right]
      intro hp
      rw [address_of_areOf hown hp] at hpart
      simp at hpart

/-! ### Order -/

def key : TreePart → List Nat
  | limb address => address.map (· + 1)
  | trunk address => address.map (· + 1) ++ [0]
  | twig address place => address.map (· + 1) ++ [0, place]

/-- A key starts with the address of its part, each place one higher so that a zero comes before all
children. -/
theorem exists_key (part : TreePart) : ∃ rest, part.key = part.address.map (· + 1) ++ rest := by
  cases part with
  | limb address => exact ⟨[], (List.append_nil _).symm⟩
  | trunk address => exact ⟨[0], rfl⟩
  | twig address place => exact ⟨[0, place], rfl⟩

theorem map_succ_lt_append (address : List Nat) (x : Nat) (rest : List Nat) :
    address.map (· + 1) < address.map (· + 1) ++ x :: rest := by
  have hlt : address.map (· + 1) ++ [] < address.map (· + 1) ++ x :: rest :=
    List.append_left_lt (List.nil_lt_cons x rest)
  rwa [List.append_nil] at hlt

/-- The parts of an entry come before those of the entries below it. -/
theorem key_lt_of_below {first second : TreePart} {place : Nat} {rest : List Nat}
    (h : second.address = first.address ++ place :: rest) : first.key < second.key := by
  obtain ⟨more, hmore⟩ := second.exists_key
  rw [hmore, h, List.map_append, List.append_assoc, List.map_cons, List.cons_append]
  -- A limb's key is a prefix of what follows; the others go on with a zero, before any child.
  cases first with
  | limb address => exact map_succ_lt_append address (place + 1) _
  | trunk address => exact List.append_left_lt (List.Lex.rel (Nat.succ_pos place))
  | twig address k => exact List.append_left_lt (List.Lex.rel (Nat.succ_pos place))

/-- The parts at and below an entry come before those at and below a later sibling. -/
theorem key_lt_of_sibling {first second : TreePart} {address rest rest' : List Nat} {i j : Nat}
    (hfirst : first.address = address ++ i :: rest)
    (hsecond : second.address = address ++ j :: rest') (h : i < j) : first.key < second.key := by
  obtain ⟨more, hmore⟩ := first.exists_key
  obtain ⟨more', hmore'⟩ := second.exists_key
  rw [hmore, hmore', hfirst, hsecond, List.map_append, List.map_append, List.append_assoc,
    List.append_assoc, List.map_cons, List.map_cons, List.cons_append, List.cons_append]
  exact List.append_left_lt (List.Lex.rel (Nat.succ_lt_succ h))

def InOrder (parts : List TreePart) : Prop :=
  parts.Pairwise fun first second => first.key < second.key

/-- An entry's own parts are drawn in the order of their keys. -/
theorem inOrder_of_areOf {address : List Nat} {entry : FileTree} {parts : List TreePart}
    (h : AreOf address entry parts) : InOrder parts := by
  have htwigs (count : Nat) : InOrder (limb address :: twigs address count) := by
    refine List.pairwise_cons.2 ⟨?_, ?_⟩
    · intro part hp
      obtain ⟨k, -, rfl⟩ := List.mem_map.1 hp
      exact map_succ_lt_append address 0 [k]
    · refine List.pairwise_map.2 (List.pairwise_lt_range.imp ?_)
      intro i j hij
      exact List.append_left_lt (List.Lex.cons (List.Lex.rel hij))
  unfold AreOf at h
  split at h
  · rcases h with rfl | rfl
    · exact htwigs 3
    · exact htwigs 4
  · subst h
    exact List.pairwise_pair.2 (map_succ_lt_append address 0 [])

/-- If the parts of each child are in order, so are those of all children. -/
theorem DrawFrom.inOrder_of_children {address : List Nat} {place : Nat}
    {children : List FileTree} {parts : List TreePart} (h : DrawFrom address place children parts)
    (ih : ∀ child ∈ children, ∀ {address : List Nat} {parts : List TreePart},
      Draw address child parts → InOrder parts) : InOrder parts := by
  induction children generalizing place parts with
  | nil =>
    obtain rfl : parts = [] := h
    exact List.Pairwise.nil
  | cons child rest ihrest =>
    obtain ⟨first, others, rfl, hfirst, hothers⟩ := h
    refine List.pairwise_append.2 ⟨ih child List.mem_cons_self hfirst, ?_, ?_⟩
    · exact ihrest hothers fun other hmem => ih other (List.mem_cons_of_mem _ hmem)
    · -- The first child's address is less than that of any later one.
      intro part hpart other hother
      obtain ⟨down, -, haddress, -⟩ := hfirst.exists_entry hpart
      obtain ⟨i, down', -, -, -, haddress', -⟩ := hothers.exists_entry hother
      rw [List.append_assoc, List.singleton_append] at haddress
      exact key_lt_of_sibling haddress haddress' (by omega)

/-- Parts are drawn in the order of their keys, which is that of a walk through the hierarchy. -/
theorem Draw.inOrder {tree : FileTree} {address : List Nat} {parts : List TreePart}
    (h : Draw address tree parts) : InOrder parts := by
  induction tree using FileTree.induction_on_children generalizing address parts with
  | entry name path kind metadata children ih =>
    obtain ⟨own, below, rfl, hown, hbelow⟩ := h
    refine List.pairwise_append.2 ⟨inOrder_of_areOf hown, ?_, ?_⟩
    · exact hbelow.inOrder_of_children fun child hmem _ _ hdraw => ih child hmem hdraw
    · intro part hpart other hother
      obtain ⟨i, rest, -, -, -, haddress, -⟩ := hbelow.exists_entry hother
      rw [← address_of_areOf hown hpart, Nat.zero_add] at haddress
      exact key_lt_of_below haddress

/-- Keys increase, so no part stands twice. -/
theorem InOrder.nodup {parts : List TreePart} (h : InOrder parts) : parts.Nodup := by
  refine h.imp ?_
  rintro part _ hlt rfl
  exact List.lt_irrefl _ hlt

/-- A part with a lesser key is drawn earlier. -/
theorem InOrder.idxOf_lt {parts : List TreePart} (h : InOrder parts) {first second : TreePart}
    (hfirst : first ∈ parts) (hsecond : second ∈ parts) (hlt : first.key < second.key) :
    parts.idxOf first < parts.idxOf second := by
  have hi := List.idxOf_lt_length_of_mem hfirst
  have hj := List.idxOf_lt_length_of_mem hsecond
  -- Any other order of the places would turn the order of the keys around.
  rcases Nat.lt_trichotomy (parts.idxOf first) (parts.idxOf second) with h' | h' | h'
  · exact h'
  · rw [List.idxOf_inj hfirst] at h'
    rw [h'] at hlt
    exact absurd hlt (List.lt_irrefl _)
  · have hgt := List.pairwise_iff_getElem.1 h _ _ hj hi h'
    rw [List.getElem_idxOf, List.getElem_idxOf] at hgt
    exact absurd (List.lt_trans hlt hgt) (List.lt_irrefl _)

/-! ### Whole hierarchies -/

variable {tree : FileTree} {parts : List TreePart}

theorem DrawAll.inOrder (h : DrawAll tree parts) : InOrder parts := by
  obtain ⟨below, rfl, hbelow⟩ := h
  refine List.pairwise_cons.2 ⟨?_, ?_⟩
  · intro part hp
    obtain ⟨i, rest, -, -, -, haddress, -⟩ := hbelow.exists_entry hp
    have hlt : (trunk []).key < part.key := key_lt_of_below haddress
    exact hlt
  · exact hbelow.inOrder_of_children fun _ _ _ _ hdraw => hdraw.inOrder

/-- The root has no part but its trunk. -/
theorem DrawAll.mem_iff_of_root (h : DrawAll tree parts) {part : TreePart}
    (hp : part.address = []) : part ∈ parts ↔ part = trunk [] := by
  obtain ⟨below, rfl, hbelow⟩ := h
  rw [List.mem_cons, or_iff_left]
  intro hmem
  obtain ⟨i, rest, -, -, -, haddress, -⟩ := hbelow.exists_entry hmem
  rw [hp] at haddress
  simp at haddress

/-- At the address of each entry below the root stand its own parts and no others. -/
theorem DrawAll.exists_own (h : DrawAll tree parts) {address : List Nat} {entry : FileTree}
    (hne : address ≠ []) (hentry : tree.at? address = some entry) :
    ∃ own, AreOf address entry own ∧
      ∀ part : TreePart, part.address = address → (part ∈ parts ↔ part ∈ own) := by
  obtain ⟨below, rfl, hbelow⟩ := h
  obtain ⟨i, rest, rfl⟩ := List.exists_cons_of_ne_nil hne
  obtain ⟨child, hchild, hrest⟩ := Option.bind_eq_some_iff.1 hentry
  obtain ⟨own, hown, hmem⟩ := hbelow.exists_own_of_children
    (fun _ _ _ _ hdraw _ _ => hdraw.exists_own) hchild hrest
  rw [List.nil_append, Nat.zero_add] at hown hmem
  refine ⟨own, hown, ?_⟩
  intro part hpart
  rw [← hmem part hpart, List.mem_cons, or_iff_right]
  rintro rfl
  simp [TreePart.address] at hpart

theorem DrawAll.exists_entry (h : DrawAll tree parts) {part : TreePart} (hp : part ∈ parts) :
    ∃ entry, tree.at? part.address = some entry := by
  obtain ⟨below, rfl, hbelow⟩ := h
  rcases List.mem_cons.1 hp with rfl | hp
  · exact ⟨tree, rfl⟩
  · obtain ⟨i, rest, child, entry, hchild, haddress, hentry⟩ := hbelow.exists_entry hp
    refine ⟨entry, ?_⟩
    rw [haddress, List.nil_append, Nat.zero_add, FileTree.at?_cons, hchild, Option.bind_some,
      hentry]

/-- There is a limb for each entry below the root and for nothing else. -/
theorem DrawAll.limb_mem_iff (h : DrawAll tree parts) {address : List Nat} :
    limb address ∈ parts ↔ address ≠ [] ∧ ∃ entry, tree.at? address = some entry := by
  constructor
  · intro hmem
    refine ⟨?_, h.exists_entry hmem⟩
    rintro rfl
    rw [h.mem_iff_of_root rfl] at hmem
    exact TreePart.noConfusion hmem
  · rintro ⟨hne, entry, hentry⟩
    obtain ⟨own, hown, hmem⟩ := h.exists_own hne hentry
    refine (hmem _ rfl).2 ?_
    unfold AreOf at hown
    split at hown
    · rcases hown with rfl | rfl <;> exact List.mem_cons_self
    · subst hown
      exact List.mem_cons_self

/-- There is a trunk for each entry with children and for nothing else. -/
theorem DrawAll.trunk_mem_iff (h : DrawAll tree parts) (hroot : tree.children ≠ [])
    {address : List Nat} :
    trunk address ∈ parts ↔ ∃ entry, tree.at? address = some entry ∧ entry.children ≠ [] := by
  -- The root has its trunk in any case, the others if they have children.
  by_cases hne : address = []
  · subst hne
    rw [h.mem_iff_of_root rfl]
    exact ⟨fun _ => ⟨tree, rfl, hroot⟩, fun _ => rfl⟩
  constructor
  · intro hmem
    obtain ⟨entry, hentry⟩ := h.exists_entry hmem
    obtain ⟨own, hown, hmem'⟩ := h.exists_own hne hentry
    refine ⟨entry, hentry, ?_⟩
    intro hleaf
    rw [hmem' _ rfl] at hmem
    rw [AreOf, if_pos hleaf] at hown
    rcases hown with rfl | rfl <;> simp [twigs] at hmem
  · rintro ⟨entry, hentry, hchildren⟩
    obtain ⟨own, hown, hmem⟩ := h.exists_own hne hentry
    rw [AreOf, if_neg hchildren] at hown
    subst hown
    exact (hmem _ rfl).2 (List.mem_cons_of_mem _ List.mem_cons_self)

/-- Each leaf below the root has three twigs or four. -/
theorem DrawAll.exists_twig_count (h : DrawAll tree parts) {address : List Nat}
    {entry : FileTree} (hne : address ≠ []) (hentry : tree.at? address = some entry)
    (hleaf : entry.children = []) :
    ∃ count, (count = 3 ∨ count = 4) ∧ ∀ k, twig address k ∈ parts ↔ k < count := by
  obtain ⟨own, hown, hmem⟩ := h.exists_own hne hentry
  have htwigs (count k : Nat) :
      twig address k ∈ limb address :: twigs address count ↔ k < count := by
    simp [twigs]
  rw [AreOf, if_pos hleaf] at hown
  rcases hown with rfl | rfl
  · exact ⟨3, Or.inl rfl, fun k => (hmem _ rfl).trans (htwigs 3 k)⟩
  · exact ⟨4, Or.inr rfl, fun k => (hmem _ rfl).trans (htwigs 4 k)⟩

/-- Twigs grow only at leaves below the root. -/
theorem DrawAll.leaf_of_twig_mem (h : DrawAll tree parts) {address : List Nat} {k : Nat}
    (hmem : twig address k ∈ parts) :
    address ≠ [] ∧ ∃ entry, tree.at? address = some entry ∧ entry.children = [] := by
  have hne : address ≠ [] := by
    rintro rfl
    rw [h.mem_iff_of_root rfl] at hmem
    exact TreePart.noConfusion hmem
  obtain ⟨entry, hentry⟩ := h.exists_entry hmem
  obtain ⟨own, hown, hmem'⟩ := h.exists_own hne hentry
  refine ⟨hne, entry, hentry, ?_⟩
  by_contra hchildren
  rw [AreOf, if_neg hchildren] at hown
  subst hown
  rw [hmem' _ rfl] at hmem
  simp at hmem

end TreePart

end Arbor
