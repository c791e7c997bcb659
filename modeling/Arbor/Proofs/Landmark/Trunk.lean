import Mathlib.Data.List.Nodup
import Arbor.Landmark.Nest
import Arbor.Proofs.Turtle.Forest
import Arbor.Scalar.Binary

/-! The trunk of a drawn tree and the nest on it. A trunk is followed through the first branches
only, while what grows from it is looked for among all of them. Both agree, since a branch outside
of all brackets is drawn with nothing to come back to: from then on nothing grows from the branches
before it. -/

namespace Arbor

variable {α : Type}

namespace Turtle

/-! ### What a walk has left behind -/

/-- Whether a walk has left the branches before a place for good: wherever it stands or will come
back to, that branch or a later one carries it. -/
structure Walk.HasLeft (walk : Walk α) (place : Nat) : Prop where
  lt_size : place < walk.branches.size
  current : ∃ i ∈ walk.current, place ≤ i
  saved : ∀ state ∈ walk.saved, ∃ i ∈ state.2, place ≤ i
  branches : ∀ (i : Nat) (branch : Branch α), walk.branches[i]? = some branch → place < i →
    ∃ j ∈ branch.parent, place ≤ j

namespace Walk.HasLeft

variable {walk : Walk α} {place : Nat}

theorem push (h : walk.HasLeft place) : walk.push.HasLeft place := by
  refine ⟨h.lt_size, h.current, ?_, h.branches⟩
  intro state hstate
  rcases List.mem_cons.1 hstate with hstate | hstate
  · rw [hstate]
    exact h.current
  · exact h.saved state hstate

theorem pop (h : walk.HasLeft place) : walk.pop.HasLeft place := by
  cases hsaved : walk.saved with
  | nil => rwa [Walk.pop_of_saved_nil hsaved]
  | cons state saved =>
    have hstates := h.saved
    rw [hsaved, List.forall_mem_cons] at hstates
    rw [Walk.pop_of_saved_cons hsaved]
    exact ⟨h.lt_size, hstates.1, hstates.2, h.branches⟩

variable [Scalar α]

theorem draw (h : walk.HasLeft place) (length : α) : (walk.draw length).HasLeft place := by
  have hsize : (walk.draw length).branches.size = walk.branches.size + 1 := Array.size_push _
  refine ⟨?_, ⟨walk.branches.size, rfl, Nat.le_of_lt h.lt_size⟩, h.saved, ?_⟩
  · rw [hsize]
    exact Nat.lt_succ_of_lt h.lt_size
  · intro i branch hbranch hlt
    rw [Walk.draw, Array.getElem?_push] at hbranch
    split at hbranch
    · -- The new branch grows from where the turtle stands.
      obtain rfl := Option.some.inj hbranch
      exact h.current
    · exact h.branches i branch hbranch hlt

/-- What a walk has left for good, it does not come back to by any instruction. -/
theorem step [Trig α] (h : walk.HasLeft place) (angle : α) (i : Instruction) :
    (walk.step angle i).HasLeft place := by
  obtain ⟨command, payload⟩ := i
  cases command with
  | draw => exact h.draw _
  | push => exact h.push
  | pop => exact h.pop
  | _ => exact ⟨h.lt_size, h.current, h.saved, h.branches⟩

end Walk.HasLeft

variable [Scalar α]

/-- With nothing to come back to, drawing leaves all branches before the new one. -/
theorem Walk.hasLeft_draw {walk : Walk α} (h : walk.saved = []) (length : α) :
    (walk.draw length).HasLeft walk.branches.size := by
  have hsize : (walk.draw length).branches.size = walk.branches.size + 1 := Array.size_push _
  have hsaved : (walk.draw length).saved = [] := h
  refine ⟨?_, ⟨walk.branches.size, rfl, Nat.le_refl _⟩, ?_, ?_⟩
  · rw [hsize]
    exact Nat.lt_succ_self _
  · rw [hsaved]
    exact nofun
  · intro i branch hbranch hlt
    have hi := (Array.getElem?_eq_some_iff.1 hbranch).1
    omega

def Walk.IsPruned (walk : Walk α) : Prop :=
  ∀ (place : Nat) (branch : Branch α), walk.branches[place]? = some branch → branch.depth = 0 →
    walk.HasLeft place

variable [Trig α] {walk : Walk α} {level : Nat}

/-- A new branch outside of all brackets is drawn with nothing to come back to, so it leaves all
branches before it. -/
theorem Walk.IsPruned.step (h : walk.IsPruned) (hlevel : walk.IsAtLevel level) (angle : α)
    (i : Instruction) : (walk.step angle i).IsPruned := by
  intro place branch hbranch hdepth
  by_cases hi : i.command = .draw
  · obtain ⟨command, payload⟩ := i
    obtain rfl : command = .draw := hi
    rw [Walk.step, Walk.draw, Array.getElem?_push] at hbranch
    split at hbranch
    case isTrue hplace =>
      -- At depth zero no bracket is open, so none has saved a state.
      obtain rfl := Option.some.inj hbranch
      have hzero : level = 0 := hlevel.depth_eq.symm.trans hdepth
      have hsaved : walk.saved = [] := by
        apply List.eq_nil_of_length_eq_zero
        rw [hlevel.length_eq, hzero]
      rw [hplace]
      exact Walk.hasLeft_draw hsaved _
    case isFalse => exact (h place branch hbranch hdepth).step angle _
  · rw [walk.branches_step_of_ne angle hi] at hbranch
    exact (h place branch hbranch hdepth).step angle i

theorem Walk.IsPruned.run (h : walk.IsPruned) (hlevel : walk.IsAtLevel level) (angle : α)
    (list : List Instruction) : (walk.run angle list).IsPruned := by
  induction list generalizing walk level with
  | nil => exact h
  | cons i list ih =>
    rw [Walk.run_cons]
    exact ih (h.step hlevel angle i) (hlevel.step angle i)

end Turtle

/-! ### The trunk -/

namespace Branch

variable {branches : Array (Branch α)}

/-- A branch has one child if no other branch names it as its parent. -/
theorem childrenOf_eq_singleton {parent child : Nat}
    (h : ∀ i, branches[i]?.bind (·.parent) = some parent ↔ i = child) :
    childrenOf branches parent = [child] := by
  have hmem : ∀ i, i ∈ childrenOf branches parent ↔ i ∈ [child] := by
    intro i
    rw [mem_childrenOf, h, List.mem_singleton]
  apply List.perm_singleton.1
  exact (List.perm_ext_iff_of_nodup (nodup_childrenOf branches parent)
    (List.nodup_singleton child)).2 hmem

end Branch

namespace Fork

/-- Whether the branches up to a place are a trunk: from each of them but the last the next one
grows, and nothing else. -/
structure IsTrunk (branches : Array (Branch α)) (tip : Nat) : Prop where
  tip_lt : tip < branches.size
  parent : ∀ i < tip, branches[i + 1]?.bind (·.parent) = some i
  childrenOf : ∀ i < tip, Branch.childrenOf branches i = [i + 1]

variable {branches : Array (Branch α)}

/-- Each branch that a trunk goes on with lies outside of all brackets and grows from the one before
it. -/
theorem trunkTipFrom_spec {tip : Nat} {rest : List (Branch α)}
    (hrest : ∀ m, rest[m]? = branches[tip + 1 + m]?) :
    tip ≤ trunkTipFrom tip (tip + 1) rest ∧ ∀ i, tip ≤ i → i < trunkTipFrom tip (tip + 1) rest →
      ∃ branch, branches[i + 1]? = some branch ∧ branch.depth = 0 ∧ branch.parent = some i := by
  -- What is left to look at is what stands behind the tip, also when the tip moves on.
  induction rest generalizing tip with
  | nil =>
    refine ⟨Nat.le_refl tip, fun i hle hlt => ?_⟩
    exact absurd (Nat.lt_of_le_of_lt hle hlt) (Nat.lt_irrefl tip)
  | cons branch rest ih =>
    have hbranch : branches[tip + 1]? = some branch := (hrest 0).symm
    have hnext : ∀ m, rest[m]? = branches[tip + 1 + 1 + m]? := by
      intro m
      rw [Nat.add_assoc (tip + 1), Nat.add_comm 1]
      exact hrest (m + 1)
    rw [trunkTipFrom]
    split
    case isTrue hgrows =>
      obtain ⟨hle, hall⟩ := ih hnext
      refine ⟨Nat.le_of_succ_le hle, fun i hi hlt => ?_⟩
      rcases Nat.eq_or_lt_of_le hi with rfl | hi
      · exact ⟨branch, hbranch, hgrows⟩
      · exact hall i hi hlt
    case isFalse =>
      refine ⟨Nat.le_refl tip, fun i hle hlt => ?_⟩
      exact absurd (Nat.lt_of_le_of_lt hle hlt) (Nat.lt_irrefl tip)

/-- Only a tree without branches has no trunk. -/
theorem trunkTip?_eq_none_iff : trunkTip? branches = none ↔ branches = #[] := by
  rw [trunkTip?, ← Array.toList_eq_nil_iff]
  split
  case h_1 hempty => exact iff_of_true rfl hempty
  case h_2 hcons => exact iff_of_false nofun (by rw [hcons]; exact List.cons_ne_nil _ _)

/-- The branches up to the tip of a trunk follow each other outside of brackets. -/
theorem exists_of_lt_trunkTip? {tip : Nat} (h : trunkTip? branches = some tip) :
    tip < branches.size ∧ ∀ i < tip,
      ∃ branch, branches[i + 1]? = some branch ∧ branch.depth = 0 ∧ branch.parent = some i := by
  rw [trunkTip?] at h
  split at h
  case h_1 => cases h
  case h_2 first rest hlist =>
    obtain rfl := Option.some.inj h
    have hrest : ∀ m, rest[m]? = branches[0 + 1 + m]? := by
      intro m
      rw [← Array.getElem?_toList, hlist, Nat.zero_add, Nat.add_comm, List.getElem?_cons_succ]
    obtain ⟨-, hall⟩ := trunkTipFrom_spec hrest
    rw [Nat.zero_add] at hall
    refine ⟨?_, fun i hi => hall i (Nat.zero_le i) hi⟩
    -- The tip is the first branch or one of those that the trunk goes on with.
    cases htip : trunkTipFrom 0 1 rest with
    | zero =>
      rw [← Array.length_toList, hlist]
      exact Nat.succ_pos _
    | succ last =>
      obtain ⟨branch, hbranch, -⟩ := hall last (Nat.zero_le last) (by omega)
      exact (Array.getElem?_eq_some_iff.1 hbranch).1

/-- In a drawn tree nothing but the trunk itself grows from the trunk before its tip. -/
theorem isTrunk_of_trunkTip? [Scalar α] [Trig α] {angle : α} {w : Word} {tip : Nat}
    (h : trunkTip? (Turtle.interpret angle w).branches = some tip) :
    IsTrunk (Turtle.interpret angle w).branches tip := by
  have hroot := Turtle.Walk.isRooted_depth angle (Turtle.instructions w)
  have hpruned : (Turtle.Walk.start.run angle (Turtle.instructions w)).IsPruned :=
    Turtle.Walk.IsPruned.run (by intro place branch hbranch; cases hbranch)
      Turtle.Walk.IsAtLevel.start angle _
  obtain ⟨htip, hall⟩ := exists_of_lt_trunkTip? h
  have hparent : ∀ i < tip,
      (Turtle.interpret angle w).branches[i + 1]?.bind (·.parent) = some i := by
    intro i hi
    obtain ⟨branch, hbranch, -, hfrom⟩ := hall i hi
    rw [hbranch, Option.bind_some, hfrom]
  refine ⟨htip, hparent, ?_⟩
  intro i hi
  apply Branch.childrenOf_eq_singleton
  intro child
  constructor
  · intro hchild
    obtain ⟨other, hother, hfrom⟩ := Option.bind_eq_some_iff.1 hchild
    obtain ⟨branch, hbranch, hdepth, -⟩ := hall i hi
    have hafter : i < child := hroot.parent_lt hother hfrom
    -- A later child would have to grow from the next branch of the trunk or from a later one.
    by_contra hne
    obtain ⟨j, hj, hle⟩ := (hpruned (i + 1) branch hbranch hdepth).branches child other hother
      (by omega)
    rw [Option.mem_def, hfrom, Option.some_inj] at hj
    omega
  · intro hchild
    rw [hchild]
    exact hparent i hi

end Fork

/-! ### The nest on the trunk -/

namespace Nest

variable [Scalar α] [Trig α] {branches : Array (Branch α)}

theorem at?_eq_none {parent : Nat} (h : Branch.childrenOf branches parent = [])
    (platform : Platform α) : at? branches parent platform = none := by
  apply Option.eq_none_iff_forall_ne_some.2
  intro nest hnest
  obtain ⟨-, -, hne, -⟩ := at?_eq_some_iff.1 hnest
  exact hne h

/-- There is a nest on every branch from which another one grows. -/
theorem exists_at?_eq_some {parent : Nat} (hlt : parent < branches.size)
    (h : Branch.childrenOf branches parent ≠ []) (platform : Platform α) :
    ∃ nest, at? branches parent platform = some nest ∧ nest.parent = parent :=
  ⟨_, at?_eq_some_iff.2 ⟨_, Array.getElem?_eq_getElem hlt, h, rfl⟩, rfl⟩

theorem root?_eq_bind (branches : Array (Branch α)) (platform : Platform α) :
    root? branches platform =
      (Fork.trunkTip? branches).bind fun tip => at? branches tip platform := rfl

/-- In every drawn tree the nest sits on the first fork of the trunk: at the tip of a trunk from
which nothing grows before that tip. There is none just where nothing is drawn, or nothing grows
from the tip. -/
theorem root?_on_trunk (angle : α) (w : Word) (platform : Platform α) :
    (∀ tip, Fork.trunkTip? (Turtle.interpret angle w).branches = some tip →
      Fork.IsTrunk (Turtle.interpret angle w).branches tip) ∧
    (root? (Turtle.interpret angle w).branches platform = none ↔
      (Turtle.interpret angle w).branches = #[] ∨
        ∃ tip, Fork.trunkTip? (Turtle.interpret angle w).branches = some tip ∧
          Branch.childrenOf (Turtle.interpret angle w).branches tip = []) ∧
    ∀ nest, root? (Turtle.interpret angle w).branches platform = some nest →
      Fork.trunkTip? (Turtle.interpret angle w).branches = some nest.parent := by
  have htrunk (tip : Nat) (h : Fork.trunkTip? (Turtle.interpret angle w).branches = some tip) :=
    Fork.isTrunk_of_trunkTip? h
  refine ⟨htrunk, ?_⟩
  generalize (Turtle.interpret angle w).branches = branches at htrunk
  rw [root?_eq_bind, ← Fork.trunkTip?_eq_none_iff]
  cases htip : Fork.trunkTip? branches with
  | none => exact ⟨iff_of_true rfl (Or.inl rfl), nofun⟩
  | some tip =>
    rw [Option.bind_some]
    by_cases hchildren : Branch.childrenOf branches tip = []
    · rw [at?_eq_none hchildren]
      exact ⟨iff_of_true rfl (Or.inr ⟨tip, rfl, hchildren⟩), nofun⟩
    · obtain ⟨nest, hnest, hparent⟩ :=
        exists_at?_eq_some (htrunk tip htip).tip_lt hchildren platform
      rw [hnest]
      constructor
      · refine iff_of_false nofun ?_
        rintro (hnone | ⟨other, hother, hempty⟩)
        · cases hnone
        · obtain rfl := Option.some.inj hother
          exact hchildren hempty
      · intro other hother
        obtain rfl := Option.some.inj hother
        rw [hparent]

def bole : Word := "F]GF[+F][-F]F".toList

/-- A bracket that closes none does not end the trunk, and a branch outside of brackets does not go
on with it once it has forked. -/
theorem bole_root?_on_trunk :
    Fork.trunkTip? (Turtle.interpret (25.0 : Float32) bole).branches = some 2 ∧
      Fork.IsTrunk (Turtle.interpret (25.0 : Float32) bole).branches 2 ∧
      ∃ nest, root? (Turtle.interpret (25.0 : Float32) bole).branches .fallback = some nest ∧
        nest.parent = 2 := by
  have htip : Fork.trunkTip? (Turtle.interpret (25.0 : Float32) bole).branches = some 2 := by
    decide +kernel
  have hchildren :
      Branch.childrenOf (Turtle.interpret (25.0 : Float32) bole).branches 2 = [3, 4, 5] := by
    decide +kernel
  obtain ⟨htrunk, hnone, hseat⟩ := root?_on_trunk (25.0 : Float32) bole .fallback
  have hnest : root? (Turtle.interpret (25.0 : Float32) bole).branches .fallback ≠ none := by
    rw [Ne, hnone, htip]
    rintro (hempty | ⟨tip, heq, hchild⟩)
    · rw [hempty] at htip
      cases htip
    · obtain rfl := Option.some.inj heq
      rw [hchildren] at hchild
      cases hchild
  obtain ⟨nest, hsome⟩ := Option.ne_none_iff_exists'.1 hnest
  have hparent := hseat nest hsome
  rw [htip, Option.some_inj] at hparent
  exact ⟨htip, htrunk 2 htip, nest, hsome, hparent.symm⟩

end Nest

end Arbor
