import Mathlib.Data.List.Basic
import Arbor.FileTree.System
import Arbor.Proofs.FileTree.Address
import Arbor.Proofs.Turtle.Bracket
import Arbor.Scalar.Binary

/-! The drawing of an entry beside its siblings. Inside its brackets it starts with the roll to its
place; what comes behind the roll depends on the entry and what is below it alone. A hierarchy whose
entries are put in another order is therefore drawn with the same brackets in that order. -/

namespace Arbor

namespace Step

variable {α : Type}

def bracketsFrom (depth : Nat) (inside : List (Step α)) : List (Step α) → List (List (Step α))
  | [] => []
  | .push :: rest =>
    if depth = 0 then bracketsFrom 1 [] rest
    else bracketsFrom (depth + 1) (inside ++ [.push]) rest
  | .pop :: rest =>
    if depth = 1 then inside :: bracketsFrom 0 [] rest
    else bracketsFrom (depth - 1) (inside ++ [.pop]) rest
  | step :: rest => bracketsFrom depth (inside ++ [step]) rest

/-- What stands between the outermost brackets of steps, in order. -/
def brackets (steps : List (Step α)) : List (List (Step α)) :=
  bracketsFrom 0 [] steps

def bracket (steps : List (Step α)) : List (Step α) :=
  .push :: steps ++ [.pop]

def isBracket : Step α → Bool
  | push | pop => true
  | _ => false

/-- Outside all brackets nothing is kept. -/
theorem bracketsFrom_zero (inside steps : List (Step α)) :
    bracketsFrom 0 inside steps = brackets steps := by
  rw [brackets]
  induction steps generalizing inside with
  | nil => rfl
  | cons step steps ih =>
    cases step with
    | push => rfl
    | _ => exact (ih _).trans (ih _).symm

/-- Steps that are no brackets are kept inside the one that is open. -/
theorem bracketsFrom_append_of_not_isBracket {steps : List (Step α)}
    (h : ∀ step ∈ steps, ¬step.isBracket) (depth : Nat) (inside rest : List (Step α)) :
    bracketsFrom depth inside (steps ++ rest) = bracketsFrom depth (inside ++ steps) rest := by
  induction steps generalizing inside with
  | nil => rw [List.nil_append, List.append_nil]
  | cons step steps ih =>
    rw [List.forall_mem_cons] at h
    have hstep : bracketsFrom depth inside (step :: (steps ++ rest)) =
        bracketsFrom depth (inside ++ [step]) (steps ++ rest) := by
      cases step with
      | push => exact absurd rfl h.1
      | pop => exact absurd rfl h.1
      | _ => rfl
    rw [List.cons_append, hstep, ih h.2, List.append_assoc, List.singleton_append]

/-- Steps before the first bracket count for nothing. -/
theorem brackets_append_of_not_isBracket {first : List (Step α)}
    (h : ∀ step ∈ first, ¬step.isBracket) (steps : List (Step α)) :
    brackets (first ++ steps) = brackets steps := by
  rw [brackets, bracketsFrom_append_of_not_isBracket h, bracketsFrom_zero]

def IsNested (steps : List (Step α)) : Prop :=
  ∀ (depth : Nat) (inside rest : List (Step α)),
    bracketsFrom (depth + 1) inside (steps ++ rest) =
      bracketsFrom (depth + 1) (inside ++ steps) rest

theorem isNested_of_not_isBracket {steps : List (Step α)} (h : ∀ step ∈ steps, ¬step.isBracket) :
    IsNested steps :=
  fun depth => bracketsFrom_append_of_not_isBracket h (depth + 1)

theorem IsNested.append {first second : List (Step α)} (hfirst : IsNested first)
    (hsecond : IsNested second) : IsNested (first ++ second) := by
  intro depth inside rest
  rw [List.append_assoc, hfirst, hsecond, List.append_assoc]

theorem IsNested.bracket {steps : List (Step α)} (h : IsNested steps) :
    IsNested (bracket steps) := by
  intro depth inside rest
  -- The steps are read one level down, and the closing bracket leads back up.
  calc bracketsFrom (depth + 1) inside (Step.bracket steps ++ rest)
      = bracketsFrom (depth + 1 + 1) (inside ++ [.push]) (steps ++ .pop :: rest) := by
        rw [Step.bracket, List.append_assoc, List.singleton_append, List.cons_append, bracketsFrom,
          if_neg (Nat.succ_ne_zero depth)]
    _ = bracketsFrom (depth + 1 + 1) (inside ++ [.push] ++ steps) (.pop :: rest) := h _ _ _
    _ = bracketsFrom (depth + 1) (inside ++ Step.bracket steps) rest := by
        rw [bracketsFrom, if_neg (by omega), Nat.add_sub_cancel, Step.bracket, List.append_assoc,
          List.append_assoc, List.singleton_append, List.cons_append]

/-- A bracket around nested steps ends where they end. -/
theorem brackets_bracket_append {steps : List (Step α)} (h : IsNested steps)
    (rest : List (Step α)) : brackets (bracket steps ++ rest) = steps :: brackets rest := by
  have hopen : brackets (bracket steps ++ rest) = bracketsFrom 1 [] (steps ++ .pop :: rest) := by
    rw [bracket, List.append_assoc, List.singleton_append, List.cons_append, brackets, bracketsFrom,
      if_pos rfl]
  rw [hopen, h 0, List.nil_append, bracketsFrom, if_pos rfl, bracketsFrom_zero]

section

variable {parts : List (List (Step α))}

theorem isNested_flatMap_bracket (h : ∀ part ∈ parts, IsNested part) :
    IsNested (parts.flatMap bracket) := by
  induction parts with
  | nil => exact isNested_of_not_isBracket fun step hstep => absurd hstep List.not_mem_nil
  | cons part parts ih =>
    rw [List.forall_mem_cons] at h
    rw [List.flatMap_cons]
    exact h.1.bracket.append (ih h.2)

/-- What is put in brackets part by part is found in them part by part. -/
theorem brackets_flatMap_bracket (h : ∀ part ∈ parts, IsNested part) :
    brackets (parts.flatMap bracket) = parts := by
  induction parts with
  | nil => rfl
  | cons part parts ih =>
    rw [List.forall_mem_cons] at h
    rw [List.flatMap_cons, brackets_bracket_append h.1, ih h.2]

end

variable [Scalar α]

/-- The text of some brackets is made of the texts in them. -/
theorem words_flatMap_bracket (parts : List (List (Step α))) :
    words (parts.flatMap bracket) = (parts.map words).flatMap Word.bracket := by
  induction parts with
  | nil => rfl
  | cons part parts ih =>
    have hpart : words (bracket part) = (words part).bracket := by
      rw [bracket, List.cons_append, words_cons, words_append]
      rfl
    rw [List.flatMap_cons, words_append, hpart, ih, List.map_cons, List.flatMap_cons]

def rolled (turn : α) (texts : List Word) : List Word :=
  texts.mapIdx fun place text => (roll (turn * (place : α))).word ++ text

end Step

namespace FileTree

open Step

/-! ### One entry and its siblings -/

variable {α : Type} [Scalar α]

theorem not_isBracket_of_mem_branchSteps {radius : α} {shape : Shape α} :
    ∀ step ∈ branchSteps radius shape, ¬step.isBracket := by
  unfold branchSteps
  split <;> simp [isBracket]

theorem not_isBracket_of_mem_trunkSteps {radius : α} {gen : Generator} :
    ∀ step ∈ trunkSteps radius gen, ¬step.isBracket := by
  simp [trunkSteps, isBracket]

theorem not_isBracket_of_mem_tipSteps {radius : α} {path : String} :
    ∀ step ∈ tipSteps radius path, ¬step.isBracket := by
  simp [tipSteps, isBracket]

variable (base : UInt32) (riskAt : String → α)

def boughs (radius turn : α) (place : Nat) (children : List FileTree) : List (List (Step α)) :=
  children.mapIdx fun i child =>
    .roll (turn * ((place + i : Nat) : α)) :: limb base riskAt radius child

theorem boughs_cons (radius turn : α) (place : Nat) (child : FileTree) (rest : List FileTree) :
    boughs base riskAt radius turn place (child :: rest) =
      (.roll (turn * (place : α)) :: limb base riskAt radius child) ::
        boughs base riskAt radius turn (place + 1) rest := by
  have hplace : ∀ i, place + (i + 1) = place + 1 + i := by omega
  rw [boughs, List.mapIdx_cons, boughs, Nat.add_zero]
  congr 2
  funext i other
  rw [hplace]

/-- The limbs of some children are one bracket for each. -/
theorem limbs_eq_boughs (radius turn : α) (place : Nat) (children : List FileTree) :
    limbs base riskAt radius turn place children =
      (boughs base riskAt radius turn place children).flatMap bracket := by
  induction children generalizing place with
  | nil => rfl
  | cons child rest ih =>
    rw [limbs, ih, boughs_cons, List.flatMap_cons, bracket, List.append_assoc,
      List.singleton_append]

theorem isNested_of_mem_boughs {radius turn : α} {place : Nat} {children : List FileTree}
    (h : ∀ child ∈ children, IsNested (limb base riskAt radius child)) :
    ∀ bough ∈ boughs base riskAt radius turn place children, IsNested bough := by
  intro bough hbough
  obtain ⟨i, hi, rfl⟩ := List.mem_mapIdx.1 hbough
  have hroll : IsNested [Step.roll (turn * ((place + i : Nat) : α))] := by
    apply isNested_of_not_isBracket
    simp [isBracket]
  exact hroll.append (h _ (List.getElem_mem hi))

/-- What is in an entry's brackets stays in them. -/
theorem isNested_limb (radius : α) (tree : FileTree) :
    IsNested (limb base riskAt radius tree) := by
  induction tree using induction_on_children generalizing radius with
  | entry name path kind metadata children ih =>
    rw [limb]
    apply IsNested.append (isNested_of_not_isBracket not_isBracket_of_mem_branchSteps)
    split
    · apply IsNested.append (isNested_of_not_isBracket not_isBracket_of_mem_trunkSteps)
      rw [limbs_eq_boughs]
      apply isNested_flatMap_bracket
      exact isNested_of_mem_boughs base riskAt fun child hmem => ih child hmem _
    · exact isNested_of_not_isBracket not_isBracket_of_mem_tipSteps

/-- The texts in the brackets are those of the children, each behind its roll. -/
theorem map_words_boughs (radius turn : α) (children : List FileTree) :
    (boughs base riskAt radius turn 0 children).map words =
      rolled turn (children.map fun child => words (limb base riskAt radius child)) := by
  apply List.ext_getElem?
  intro i
  simp only [boughs, rolled, List.getElem?_map, List.getElem?_mapIdx, Option.map_map, Nat.zero_add]
  rfl

/-- The text of an entry with children: its own steps, then a bracket for each child. -/
theorem words_append_limbs (first : List (Step α)) (radius turn : α) (children : List FileTree) :
    words (first ++ limbs base riskAt radius turn 0 children) =
      words first ++ (rolled turn (children.map fun child =>
        words (limb base riskAt radius child))).flatMap Word.bracket := by
  rw [words_append, limbs_eq_boughs, words_flatMap_bracket, map_words_boughs]

/-- An entry that is drawn as a leaf is drawn as if it had no children. -/
theorem limb_of_leaf {name path : String} {kind : EntryKind} {metadata : Option Metadata}
    {children : List FileTree} (h : kind = .file ∨ children = []) (radius : α) :
    limb base riskAt radius (entry name path kind metadata children) =
      limb base riskAt radius (entry name path kind metadata []) := by
  have hleaf : ¬(kind = .directory ∧ ¬children.isEmpty) := by
    rw [List.isEmpty_iff]
    rintro ⟨rfl, hchildren⟩
    exact h.elim nofun hchildren
  have hempty : ¬(kind = .directory ∧ ¬([] : List FileTree).isEmpty) := fun h => h.2 rfl
  simp only [limb, if_neg hleaf, if_neg hempty]

/-- What a directory draws before the limbs of its children does not depend on them. -/
theorem exists_limb_eq (name path : String) (metadata : Option Metadata) (radius : α) :
    ∃ own : List (Step α), (∀ step ∈ own, ¬step.isBracket) ∧
      ∀ children : List FileTree, children ≠ [] →
        limb base riskAt radius (entry name path .directory metadata children) =
          own ++ limbs base riskAt (branchRadius radius .directory)
            (360.0 / (children.length : α)) 0 children := by
  refine ⟨branchSteps (branchRadius radius .directory)
      (shape metadata (riskAt path) (Generator.ofPath path base)).1 ++
    trunkSteps (branchRadius radius .directory)
      (shape metadata (riskAt path) (Generator.ofPath path base)).2, ?_, ?_⟩
  · rw [List.forall_mem_append]
    exact ⟨not_isBracket_of_mem_branchSteps, not_isBracket_of_mem_trunkSteps⟩
  · intro children hchildren
    simp [limb, hchildren]

/-- Whether the brackets of a drawing hold the drawings of `children` from a trunk of the given
radius, each behind its roll. -/
def Bears (radius : α) (children : List FileTree) (steps : List (Step α)) : Prop :=
  (brackets steps).map words =
    rolled (360.0 / (children.length : α))
      (children.map fun child => words (limb base riskAt radius child))

/-- The limbs of some children hold the drawings of these, whatever is drawn before them. -/
theorem bears_append_limbs {first : List (Step α)} (h : ∀ step ∈ first, ¬step.isBracket)
    (radius : α) (children : List FileTree) :
    Bears base riskAt radius children
      (first ++ limbs base riskAt radius (360.0 / (children.length : α)) 0 children) := by
  rw [Bears, brackets_append_of_not_isBracket h, limbs_eq_boughs, brackets_flatMap_bracket,
    map_words_boughs]
  exact isNested_of_mem_boughs base riskAt fun child _ => isNested_limb base riskAt radius child

/-! ### Siblings in another order -/

/-- Whether a hierarchy is another one with the children of its entries in another order. Each of
the `moves` is a child and what has become of it. -/
inductive Rearranged : FileTree → FileTree → Prop
  | of_moves {name path : String} {kind : EntryKind} {metadata : Option Metadata}
    {moves moves' : List (FileTree × FileTree)} (horder : moves.Perm moves')
    (hmoves : ∀ move ∈ moves, Rearranged move.1 move.2) :
    Rearranged (.entry name path kind metadata (moves.map (·.1)))
      (.entry name path kind metadata (moves'.map (·.2)))

theorem Rearranged.refl (tree : FileTree) : Rearranged tree tree := by
  induction tree using induction_on_children with
  | entry name path kind metadata children ih =>
    have hmoves : ∀ move ∈ children.map fun child => (child, child), Rearranged move.1 move.2 := by
      rw [List.forall_mem_map]
      exact ih
    have h : Rearranged
        (entry name path kind metadata ((children.map fun child => (child, child)).map (·.1)))
        (entry name path kind metadata ((children.map fun child => (child, child)).map (·.2))) :=
      Rearranged.of_moves (List.Perm.refl _) hmoves
    rw [List.map_map, List.map_map] at h
    have hid : children.map id = children := List.map_id children
    exact hid ▸ h

variable (α) in
/-- Whether two texts of hierarchies agree but for the order of the brackets, which is that of the
children, and for the rolls that the brackets start with. -/
inductive Redrawn : FileTree → FileTree → Word → Word → Prop
  /-- An entry that is drawn without children. -/
  | same {tree tree' : FileTree} (hleaf : tree.kind = .file ∨ tree.children = []) (text : Word) :
    Redrawn tree tree' text text
  | of_moves {name path : String} {kind : EntryKind} {metadata : Option Metadata}
    {moves moves' : List (FileTree × FileTree)} (own : Word) (turn : α) (inside : FileTree → Word)
    (horder : moves.Perm moves')
    (hmoves : ∀ move ∈ moves, Redrawn move.1 move.2 (inside move.1) (inside move.2)) :
    Redrawn (.entry name path kind metadata (moves.map (·.1)))
      (.entry name path kind metadata (moves'.map (·.2)))
      (own ++ (rolled turn ((moves.map (·.1)).map inside)).flatMap Word.bracket)
      (own ++ (rolled turn ((moves'.map (·.2)).map inside)).flatMap Word.bracket)

variable {base riskAt}

/-- The brackets of an entry's drawing move with its children, whatever it draws before them. -/
theorem Redrawn.of_limbs {name path : String} {kind : EntryKind} {metadata : Option Metadata}
    {moves moves' : List (FileTree × FileTree)} (horder : moves.Perm moves') {radius : α}
    (hmoves : ∀ move ∈ moves, Redrawn α move.1 move.2 (words (limb base riskAt radius move.1))
      (words (limb base riskAt radius move.2))) (own : List (Step α)) :
    Redrawn α (entry name path kind metadata (moves.map (·.1)))
      (entry name path kind metadata (moves'.map (·.2)))
      (words (own ++ limbs base riskAt radius (360.0 / ((moves.map (·.1)).length : α)) 0
        (moves.map (·.1))))
      (words (own ++ limbs base riskAt radius (360.0 / ((moves'.map (·.2)).length : α)) 0
        (moves'.map (·.2)))) := by
  -- There are as many children as before, so the turn from one to the next is the same.
  have hlength : (moves'.map (·.2)).length = (moves.map (·.1)).length := by
    rw [List.length_map, List.length_map, horder.length_eq]
  rw [hlength, words_append_limbs, words_append_limbs]
  exact Redrawn.of_moves _ _ (fun child => words (limb base riskAt radius child)) horder hmoves

theorem map_eq_nil_iff_of_perm {moves moves' : List (FileTree × FileTree)}
    (horder : moves.Perm moves') : moves.map (·.1) = [] ↔ moves'.map (·.2) = [] := by
  rw [List.map_eq_nil_iff, List.map_eq_nil_iff, ← List.length_eq_zero_iff, horder.length_eq,
    List.length_eq_zero_iff]

/-- A rearranged entry is drawn with its brackets rearranged in the same way. -/
theorem Rearranged.redrawn_limb {tree tree' : FileTree} (h : Rearranged tree tree') (radius : α) :
    Redrawn α tree tree' (words (limb base riskAt radius tree))
      (words (limb base riskAt radius tree')) := by
  induction h generalizing radius with
  | @of_moves name path kind metadata moves moves' horder hmoves ih =>
    have hnil := map_eq_nil_iff_of_perm horder
    by_cases hleaf : kind = .file ∨ moves.map (·.1) = []
    · -- No children are drawn, neither before nor after.
      rw [limb_of_leaf base riskAt hleaf, limb_of_leaf base riskAt (hleaf.imp_right hnil.1)]
      apply Redrawn.same
      exact hleaf
    · rw [not_or] at hleaf
      obtain ⟨hkind, hchildren⟩ := hleaf
      obtain rfl : kind = .directory := by
        cases kind with
        | file => exact absurd rfl hkind
        | directory => rfl
      obtain ⟨own, -, hlimb⟩ := exists_limb_eq base riskAt name path metadata radius
      rw [hlimb _ hchildren, hlimb _ (hchildren ∘ hnil.2)]
      exact Redrawn.of_limbs horder (fun move hmove => ih move hmove _) own

/-- A rearranged hierarchy is drawn with its brackets rearranged in the same way. -/
theorem Rearranged.redrawn_blueprint {tree tree' : FileTree} (h : Rearranged tree tree')
    (hotspots : List (Hotspot α)) :
    Redrawn α tree tree' (words (tree.blueprint base hotspots))
      (words (tree'.blueprint base hotspots)) := by
  cases h with
  | @of_moves name path kind metadata moves moves' horder hmoves =>
    have hnil := map_eq_nil_iff_of_perm horder
    rw [blueprint, blueprint]
    simp only [List.isEmpty_iff, ← hnil]
    split
    case isTrue hleaf =>
      apply Redrawn.same
      exact Or.inr hleaf
    case isFalse =>
      exact Redrawn.of_limbs horder (fun move hmove => (hmoves move hmove).redrawn_limb _) _

/-- What the drawing of an entry has in its brackets behind the roll is the same beside any
siblings, in any order and at any place. A hierarchy whose entries have their children in another
order is drawn with the brackets in that order, and with nothing else changed but the rolls. -/
theorem blueprint_of_rearranged (base : UInt32) (hotspots : List (Hotspot α)) :
    (∀ (radius : α) (gen : Generator) (children : List FileTree),
      Bears base (Hotspot.riskAt hotspots) radius children
        (trunkSteps radius gen ++ limbs base (Hotspot.riskAt hotspots) radius
          (360.0 / (children.length : α)) 0 children)) ∧
      (∀ tree : FileTree, tree.children ≠ [] →
        Bears base (Hotspot.riskAt hotspots) rootRadius tree.children
          (tree.blueprint base hotspots)) ∧
      (∀ (radius : α) (tree : FileTree), tree.kind = .directory → tree.children ≠ [] →
        Bears base (Hotspot.riskAt hotspots) (branchRadius radius .directory) tree.children
          (limb base (Hotspot.riskAt hotspots) radius tree)) ∧
      ∀ tree tree' : FileTree, Rearranged tree tree' →
        Redrawn α tree tree' (words (tree.blueprint base hotspots))
          (words (tree'.blueprint base hotspots)) := by
  refine ⟨?_, ?_, ?_, fun _ _ h => h.redrawn_blueprint hotspots⟩
  · intro radius gen children
    exact bears_append_limbs base _ not_isBracket_of_mem_trunkSteps radius children
  · rintro ⟨name, path, kind, metadata, children⟩ hchildren
    have hparent : ¬children.isEmpty := by
      rw [List.isEmpty_iff]
      exact hchildren
    rw [blueprint, if_neg hparent]
    exact bears_append_limbs base _ not_isBracket_of_mem_trunkSteps rootRadius children
  · rintro radius ⟨name, path, kind, metadata, children⟩ hkind hchildren
    obtain rfl : kind = .directory := hkind
    obtain ⟨own, hown, hlimb⟩ :=
      exists_limb_eq base (Hotspot.riskAt hotspots) name path metadata radius
    rw [hlimb children hchildren]
    exact bears_append_limbs base _ hown _ children

def copse : FileTree :=
  directory "r" "r" [file "a" "r/a" 120,
    directory "l" "r/l" [file "b" "r/l/b" 400, file "c" "r/l/c" 10]]

def copseTurned : FileTree :=
  directory "r" "r" [directory "l" "r/l" [file "c" "r/l/c" 10, file "b" "r/l/b" 400],
    file "a" "r/a" 120]

def copseHotspots : List (Hotspot Float) :=
  [⟨"r/l/c", 4.0, 2.0, 0.5⟩]

/-- Both directories of the copse turned around, the inner one as a part of the outer. -/
theorem copse_rearranged : Rearranged copse copseTurned := by
  have hinner : Rearranged (directory "l" "r/l" [file "b" "r/l/b" 400, file "c" "r/l/c" 10])
      (directory "l" "r/l" [file "c" "r/l/c" 10, file "b" "r/l/b" 400]) := by
    have hmoves : ∀ move ∈ [(file "b" "r/l/b" 400, file "b" "r/l/b" 400),
        (file "c" "r/l/c" 10, file "c" "r/l/c" 10)], Rearranged move.1 move.2 := by
      simp [Rearranged.refl]
    exact Rearranged.of_moves (List.Perm.swap _ _ []) hmoves
  have hmoves : ∀ move ∈ [(file "a" "r/a" 120, file "a" "r/a" 120),
      (directory "l" "r/l" [file "b" "r/l/b" 400, file "c" "r/l/c" 10],
        directory "l" "r/l" [file "c" "r/l/c" 10, file "b" "r/l/b" 400])],
      Rearranged move.1 move.2 := by
    simp [Rearranged.refl, hinner]
  exact Rearranged.of_moves (List.Perm.swap _ _ []) hmoves

/-- The copse drawn both ways, and one of its directories on its own. -/
theorem copse_blueprint_of_rearranged :
    copse.children ≠ [] ∧ copse.kind = .directory ∧ Rearranged copse copseTurned ∧
      Bears 42 (Hotspot.riskAt copseHotspots) rootRadius copse.children
        (copse.blueprint 42 copseHotspots) ∧
      Bears 42 (Hotspot.riskAt copseHotspots) (branchRadius 0.5 .directory) copse.children
        (limb 42 (Hotspot.riskAt copseHotspots) 0.5 copse) ∧
      Redrawn Float copse copseTurned (words (copse.blueprint 42 copseHotspots))
        (words (copseTurned.blueprint 42 copseHotspots)) := by
  have hchildren : copse.children ≠ [] := List.cons_ne_nil _ _
  have hkind : copse.kind = .directory := rfl
  obtain ⟨-, hroot, hlimb, hredrawn⟩ := blueprint_of_rearranged 42 copseHotspots
  exact ⟨hchildren, hkind, copse_rearranged, hroot copse hchildren,
    hlimb 0.5 copse hkind hchildren, hredrawn copse copseTurned copse_rearranged⟩

end FileTree

end Arbor
