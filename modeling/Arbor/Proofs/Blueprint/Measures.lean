import Mathlib.Algebra.Order.Field.Basic
import Mathlib.Order.Interval.Set.Basic
import Mathlib.Tactic.Linarith
import Mathlib.Tactic.Positivity
import Mathlib.Tactic.Ring
import Arbor.Proofs.Blueprint.Paths
import Arbor.Proofs.Grammar.Tokens
import Arbor.Proofs.Pipeline.Markers
import Arbor.Proofs.Symbols.Decimal

/-! The numbers in the drawing of a hierarchy, in exact arithmetic. Whatever the paths, the base
seed and the risks, each number is in a range that does not depend on any draw, and so is what is
left of it when it is written with few places. -/

namespace Arbor

open Step

/-- In exact arithmetic a draw is a fraction of 32 bits, at least zero and less than one. -/
theorem Generator.unit_mem (gen : Generator) : 0 ≤ (gen.unit ℝ).1 ∧ (gen.unit ℝ).1 < 1 := by
  have hrange : (0 : ℝ) < (range : ℕ) := by exact_mod_cast (by decide : 0 < range)
  have hword : gen.next.1.toNat < range := gen.next.1.toNat_lt
  constructor
  · exact div_nonneg (Nat.cast_nonneg _) hrange.le
  · exact (div_lt_one hrange).2 (Nat.cast_lt.2 hword)

/-- The numbers that are left of those of a range when they are written to some places. -/
def upToRounding (places : ℕ) (range : Set ℝ) : Set ℝ :=
  {shown | ∃ x ∈ range, |shown - x| ≤ 0.5 / 10.0 ^ places}

/-! ### Tokens -/

namespace Step

variable {α : Type} [Scalar α]

def tokens (step : Step α) : List Token :=
  .symbol step.symbol :: (step.payload?.map Token.payload).toList

/-- The word of some steps is the word that their tokens make. -/
theorem words_tokens (steps : List (Step α)) :
    Token.words (steps.flatMap tokens) = words steps := by
  induction steps with
  | nil => rfl
  | cons step steps ih =>
    rw [words_cons, List.flatMap_cons, ← ih, word_eq, tokens]
    cases step.payload? with
    | none => rfl
    | some payload => simp [Token.words, Token.word]

/-- The tokens of readable steps are split where a reader splits their word. -/
theorem areSplit_tokens {steps : List (Step α)} (h : ∀ step ∈ steps, step.IsReadable) :
    Token.AreSplit (steps.flatMap tokens) := by
  induction steps with
  | nil => trivial
  | cons step steps ih =>
    rw [List.forall_mem_cons] at h
    rw [List.flatMap_cons, tokens]
    cases hp : step.payload? with
    | none => exact ⟨fun heq => absurd heq step.symbol_ne_open, ih h.2⟩
    | some payload =>
      exact ⟨fun heq => absurd heq step.symbol_ne_open, close_not_mem_payload h.1 hp, ih h.2⟩

end Step

/-- Whether tokens are a symbol and its payload, which is written to some places and is read as a
number of a range. -/
def Shows (symbol : Char) (places : ℕ) (range : Set ℝ) (tokens : List Token) : Prop :=
  ∃ x : Decimal.Fixed places, tokens = [.symbol symbol, .payload x.text] ∧
    ∀ default, Numeral.valueOr (some x.text) default ∈ range

/-- A number written to some places is read back as the rounded number. -/
theorem shows_toFixed {places : ℕ} (hplaces : 0 < places) {range : Set ℝ} {x : ℝ}
    (h : Scalar.rounded places x ∈ range) (symbol : Char) :
    Shows symbol places range [.symbol symbol, .payload (Scalar.toFixed places x).text] := by
  refine ⟨Scalar.toFixed places x, rfl, ?_⟩
  intro default
  rwa [Numeral.valueOr_toFixed hplaces]

theorem rounded_mem_upToRounding {range : Set ℝ} {x : ℝ} (h : x ∈ range) (places : ℕ) :
    Scalar.rounded places x ∈ upToRounding places range := by
  have hhalf : (0.5 : ℝ) = 1 / 2 := by norm_num
  refine ⟨x, h, ?_⟩
  rw [hhalf, Scalar.ten_real]
  exact Scalar.abs_rounded_sub_le places x

/-! ### Ranges -/

namespace Printed

noncomputable def radiusAt (level : ℕ) : ℝ :=
  0.3 * 0.7 ^ level

noncomputable def branchRadiusAt (level : ℕ) : EntryKind → ℝ
  | .directory => radiusAt (level + 1)
  | .file => 0.4 * radiusAt level

noncomputable def usualLength : Option Metadata → ℝ
  | none => 2.5
  | some metadata => max 1.5 (min 6.0 ((metadata.lines : ℝ) / 40.0))

def IsTrunk (level : ℕ) (tokens : List Token) : Prop :=
  ∃ width length, tokens = width ++ length ∧
    Shows '!' 3 (upToRounding 3 {radiusAt level}) width ∧
    Shows 'G' 2 (Set.Icc 2.5 4.0) length

def IsBranch (radius risk : ℝ) (metadata : Option Metadata) (tokens : List Token) : Prop :=
  ∃ yaw pitch width length, tokens = yaw ++ pitch ++ width ++ length ∧
    Shows '+' 1 (upToRounding 1 {angle | |angle - (45.0 + 5.0 * risk)| ≤ 7.5}) yaw ∧
    (pitch = [] ∨ Shows '^' 1 {angle | 2.0 ≤ |angle| ∧ |angle| ≤ 15.0} pitch) ∧
    Shows '!' 3 (upToRounding 3 {radius}) width ∧
    Shows 'G' 2 (Set.Icc 1.2 7.2 ∩ upToRounding 2
      (Set.Icc (0.8 * usualLength metadata) (1.2 * usualLength metadata))) length

def IsTip (radius : ℝ) (path : String) (tokens : List Token) : Prop :=
  ∃ width, tokens = .symbol '@' :: .payload (EntryKind.file.payload path) :: width ++ [.symbol 'F'] ∧
    Shows '!' 3 (upToRounding 3 {radius * 0.5}) width

mutual

def IsLimb (riskAt : String → ℝ) (level : ℕ) : FileTree → List Token → Prop
  | .entry _ path kind metadata children, tokens =>
    ∃ branch rest, tokens = branch ++ rest ∧
      IsBranch (branchRadiusAt level kind) (riskAt path) metadata branch ∧
      if kind = .directory ∧ ¬children.isEmpty then
        ∃ trunk below, rest = trunk ++ below ∧ IsTrunk (level + 1) trunk ∧
          AreLimbs riskAt (level + 1) children.length 0 children below
      else IsTip (branchRadiusAt level kind) path rest

def AreLimbs (riskAt : String → ℝ) (level count place : ℕ) :
    List FileTree → List Token → Prop
  | [], tokens => tokens = []
  | child :: rest, tokens =>
    ∃ roll limb others, tokens = .symbol '[' :: roll ++ limb ++ .symbol ']' :: others ∧
      Shows '/' 1 (upToRounding 1 {360.0 * (place : ℝ) / (count : ℝ)}) roll ∧
      IsLimb riskAt level child limb ∧ AreLimbs riskAt level count (place + 1) rest others

end

def IsDrawing (riskAt : String → ℝ) (tree : FileTree) (tokens : List Token) : Prop :=
  if tree.isLeaf then tokens = [.symbol '@', .payload (tree.kind.payload tree.path)]
  else
    ∃ trunk below, tokens = trunk ++ below ∧ IsTrunk 0 trunk ∧
      AreLimbs riskAt 0 tree.children.length 0 tree.children below

/-! ### Measures -/

/-- A trunk's length stays in its range when it is written, as both ends have two places. -/
theorem rounded_trunkLength (gen : Generator) :
    Scalar.rounded 2 (2.5 + (gen.unit ℝ).1 * 1.5) ∈ Set.Icc 2.5 4.0 := by
  obtain ⟨hlow, hhigh⟩ := gen.unit_mem
  have hends : (2.5 : ℝ) = (250 : ℕ) / 10 ^ 2 ∧ (4.0 : ℝ) = (400 : ℕ) / 10 ^ 2 := by norm_num
  have hlength : 2.5 + (gen.unit ℝ).1 * 1.5 ∈ Set.Icc (2.5 : ℝ) 4.0 := by
    simp only [Scalar.ofScientific_real]
    constructor <;> linarith
  rw [hends.1, hends.2] at hlength ⊢
  exact Scalar.rounded_mem_Icc hlength

theorem branchLength_eq (metadata : Option Metadata) :
    FileTree.branchLength metadata = usualLength metadata := by
  cases metadata with
  | none => rfl
  | some metadata =>
    have hends : (1.5 : ℝ) ≤ 6.0 := by norm_num
    exact Scalar.clamp_real hends

/-- With or without metadata the length lies between the two at which it is cut off. -/
theorem usualLength_mem (metadata : Option Metadata) : usualLength metadata ∈ Set.Icc 1.5 6.0 := by
  have hends : (1.5 : ℝ) ≤ 6.0 := by norm_num
  cases metadata with
  | none =>
    rw [usualLength]
    constructor <;> norm_num
  | some metadata => exact ⟨le_max_left _ _, max_le hends (min_le_left _ _)⟩

section

variable (metadata : Option Metadata) (risk : ℝ) (gen : Generator)

/-- The shape of a branch, from the three draws that it takes. -/
theorem shape_eq :
    (FileTree.shape metadata risk gen).1 =
      ⟨usualLength metadata * (0.8 + (gen.unit ℝ).1 * 0.4),
        45.0 + risk * 5.0 + ((gen.advance.unit ℝ).1 - 0.5) * 15.0,
        ((gen.advance.advance.unit ℝ).1 - 0.5) * 30.0⟩ := by
  rw [← branchLength_eq]
  rfl

/-- A branch is at most a fifth shorter or longer than is usual for its entry. -/
theorem length_shape_mem :
    (FileTree.shape metadata risk gen).1.length ∈
      Set.Icc (0.8 * usualLength metadata) (1.2 * usualLength metadata) := by
  obtain ⟨hlow, hhigh⟩ := gen.unit_mem
  have husual : 0 ≤ usualLength metadata := le_trans (by norm_num) (usualLength_mem metadata).1
  -- The length is a product of two things that vary, so the bounds are not linear in the draw alone.
  have hstretch := mul_nonneg husual hlow
  have hrest := mul_nonneg husual (sub_nonneg.2 hhigh.le)
  rw [shape_eq]
  simp only [Scalar.ofScientific_real]
  constructor <;> linarith

theorem rounded_length :
    Scalar.rounded 2 (FileTree.shape metadata risk gen).1.length ∈ Set.Icc 1.2 7.2 ∩
      upToRounding 2 (Set.Icc (0.8 * usualLength metadata) (1.2 * usualLength metadata)) := by
  have hlength := length_shape_mem metadata risk gen
  refine ⟨?_, rounded_mem_upToRounding hlength 2⟩
  -- Both ends of the fixed range are written with two places, so that the rounding keeps them.
  have hends : (1.2 : ℝ) = (120 : ℕ) / 10 ^ 2 ∧ (7.2 : ℝ) = (720 : ℕ) / 10 ^ 2 := by norm_num
  have husual := usualLength_mem metadata
  have hall : (FileTree.shape metadata risk gen).1.length ∈ Set.Icc (1.2 : ℝ) 7.2 := by
    simp only [Scalar.ofScientific_real, Set.mem_Icc] at hlength husual ⊢
    constructor <;> linarith
  rw [hends.1, hends.2] at hall ⊢
  exact Scalar.rounded_mem_Icc hall

/-- The yaw is drawn from fifteen degrees around one that grows with the risk. -/
theorem rounded_yaw :
    Scalar.rounded 1 (FileTree.shape metadata risk gen).1.yaw ∈
      upToRounding 1 {angle | |angle - (45.0 + 5.0 * risk)| ≤ 7.5} := by
  obtain ⟨hlow, hhigh⟩ := gen.advance.unit_mem
  apply rounded_mem_upToRounding
  rw [shape_eq, Set.mem_ofPred_eq, abs_le]
  simp only [Scalar.ofScientific_real]
  constructor <;> linarith

/-- A pitch that is written at all has at least two degrees, also behind the rounding. -/
theorem rounded_pitch
    (h : ¬(-2.0 ≤ (FileTree.shape metadata risk gen).1.pitch ∧
      (FileTree.shape metadata risk gen).1.pitch ≤ 2.0)) :
    Scalar.rounded 1 (FileTree.shape metadata risk gen).1.pitch ∈
      {angle | 2.0 ≤ |angle| ∧ |angle| ≤ 15.0} := by
  obtain ⟨hlow, hhigh⟩ := gen.advance.advance.unit_mem
  have hends : (2.0 : ℝ) = (20 : ℕ) / 10 ^ 1 ∧ (15.0 : ℝ) = (150 : ℕ) / 10 ^ 1 := by norm_num
  have hlarge : 2.0 ≤ |(FileTree.shape metadata risk gen).1.pitch| := by
    rw [← abs_le, not_le] at h
    exact h.le
  have hsmall : |(FileTree.shape metadata risk gen).1.pitch| ≤ 15.0 := by
    rw [shape_eq, abs_le]
    simp only [Scalar.ofScientific_real]
    constructor <;> linarith
  rw [hends.1] at hlarge ⊢
  rw [hends.2] at hsmall ⊢
  exact ⟨Scalar.le_abs_rounded hlarge, Scalar.abs_rounded_le hsmall⟩

end

/-! ### Drawings -/

open FileTree

theorem shows_rounded {places : ℕ} (hplaces : 0 < places) (x : ℝ) (symbol : Char) :
    Shows symbol places (upToRounding places {x})
      [.symbol symbol, .payload (Scalar.toFixed places x).text] :=
  shows_toFixed hplaces (rounded_mem_upToRounding (Set.mem_singleton x) places) symbol

theorem isTrunk_trunkSteps (level : ℕ) (gen : Generator) :
    IsTrunk level ((trunkSteps (radiusAt level) gen).flatMap tokens) := by
  refine ⟨_, _, rfl, shows_rounded (by decide) _ '!', ?_⟩
  exact shows_toFixed (by decide) (rounded_trunkLength gen) 'G'

/-- A branch shows a yaw, perhaps a pitch, its radius and its length, each in its range. -/
theorem isBranch_branchSteps (radius risk : ℝ) (metadata : Option Metadata) (gen : Generator) :
    IsBranch radius risk metadata
      ((branchSteps radius (shape metadata risk gen).1).flatMap tokens) := by
  have hyaw := shows_toFixed (by decide) (rounded_yaw metadata risk gen) '+'
  have hlength := shows_toFixed (by decide) (rounded_length metadata risk gen) 'G'
  have hwidth := shows_rounded (by decide : 0 < 3) radius '!'
  unfold branchSteps
  split
  case isTrue => exact ⟨_, [], _, _, rfl, hyaw, Or.inl rfl, hwidth, hlength⟩
  case isFalse h =>
    have hpitch := shows_toFixed (by decide) (rounded_pitch metadata risk gen h) '^'
    exact ⟨_, _, _, _, rfl, hyaw, Or.inr hpitch, hwidth, hlength⟩

theorem isTip_tipSteps (radius : ℝ) (path : String) :
    IsTip radius path ((tipSteps radius path).flatMap tokens) :=
  ⟨_, rfl, shows_rounded (by decide) _ '!'⟩

/-- A directory's branch is as thick as the trunk on it, a file's is thinner. -/
theorem branchRadius_radiusAt (level : ℕ) (kind : EntryKind) :
    branchRadius (radiusAt level) kind = branchRadiusAt level kind := by
  cases kind with
  | directory =>
    rw [branchRadiusAt, radiusAt, radiusAt, pow_succ]
    exact mul_assoc _ _ _
  | file => exact mul_comm _ _

/-- The step from the drawings of the children to those of all of them behind their rolls. -/
theorem areLimbs_limbs {base : UInt32} {riskAt : String → ℝ} {level count : ℕ} (place : ℕ)
    {children : List FileTree}
    (h : ∀ child ∈ children,
      IsLimb riskAt level child ((limb base riskAt (radiusAt level) child).flatMap tokens)) :
    AreLimbs riskAt level count place children
      ((limbs base riskAt (radiusAt level) (360.0 / (count : ℝ)) place children).flatMap tokens) := by
  induction children generalizing place with
  | nil => rfl
  | cons child rest ih =>
    rw [List.forall_mem_cons] at h
    have hroll := shows_rounded (by decide : 0 < 1) (360.0 / (count : ℝ) * (place : ℝ)) '/'
    -- The drawing multiplies the turn between two children, the range divides the whole circle.
    rw [div_mul_eq_mul_div] at hroll
    refine ⟨_, _, _, ?_, hroll, h.1, ih (place + 1) h.2⟩
    simp [limbs, tokens, symbol, payload?, div_mul_eq_mul_div]

/-- The measures of a drawing by induction on the entry, at every level. -/
theorem isLimb_limb (base : UInt32) (riskAt : String → ℝ) (level : ℕ) (tree : FileTree) :
    IsLimb riskAt level tree ((limb base riskAt (radiusAt level) tree).flatMap tokens) := by
  -- An entry has nothing from those above it but the radius, which the level says.
  induction tree using induction_on_children generalizing level with
  | entry name path kind metadata children ih =>
    rw [limb_entry, branchRadius_radiusAt, List.flatMap_append]
    refine ⟨_, _, rfl, isBranch_branchSteps _ _ _ _, ?_⟩
    split
    case isTrue h =>
      obtain ⟨rfl, -⟩ := h
      rw [List.flatMap_append]
      refine ⟨_, _, rfl, isTrunk_trunkSteps (level + 1) _, ?_⟩
      exact areLimbs_limbs 0 fun child hchild => ih child hchild (level + 1)
    case isFalse => exact isTip_tipSteps _ _

/-- Every number in the drawing of a hierarchy is in the range for its place. -/
theorem isDrawing_blueprint (base : UInt32) (hotspots : List (Hotspot ℝ)) (tree : FileTree) :
    IsDrawing (Hotspot.riskAt hotspots) tree
      ((tree.blueprint base hotspots).flatMap tokens) := by
  obtain ⟨name, path, kind, metadata, children⟩ := tree
  have hroot : (rootRadius : ℝ) = radiusAt 0 := (mul_one _).symm
  rw [blueprint, hroot]
  unfold IsDrawing
  split
  case isTrue h =>
    have hempty : children.isEmpty := h
    rw [if_pos hempty]
    rfl
  case isFalse h =>
    have hchildren : ¬children.isEmpty := h
    rw [if_neg hchildren, List.flatMap_append]
    refine ⟨_, _, rfl, isTrunk_trunkSteps 0 _, ?_⟩
    exact areLimbs_limbs 0 fun child _ => isLimb_limb base _ 0 child

end Printed

namespace LSystem

open FileTree Printed

variable (α : Type) [Scalar α]

/-- In exact arithmetic the word that draws a hierarchy has its numbers in their ranges, whatever
the paths, the base seed and the risks. If no marker names a path with a `)`, the tokens that a
reader splits the word into are those of the drawing. -/
theorem ofFileTree_isDrawing (tree : FileTree) (hotspots : List (Hotspot ℝ)) (base : UInt32) :
    ∃ tokens, Token.words tokens = (ofFileTree tree hotspots base : LSystem α).start ∧
      IsDrawing (Hotspot.riskAt hotspots) tree tokens ∧
      (tree.MarkedPathsAreReadable →
        Word.tokens (ofFileTree tree hotspots base : LSystem α).start = tokens) := by
  refine ⟨_, words_tokens _, isDrawing_blueprint base hotspots tree, ?_⟩
  intro hreadable
  exact Word.tokens_eq_iff.2 ⟨words_tokens _, areSplit_tokens hreadable.isReadable⟩

/-- The paths are full of symbols, and one of them is risky to change. -/
theorem symbolic_isDrawing :
    FileTree.symbolic.MarkedPathsAreReadable ∧
      IsDrawing (Hotspot.riskAt [⟨"d:+", 3.0, 1.0, 4.0⟩]) FileTree.symbolic
        (Word.tokens (ofFileTree FileTree.symbolic
          ([⟨"d:+", 3.0, 1.0, 4.0⟩] : List (Hotspot ℝ)) 7 : LSystem ℝ).start) := by
  have hreadable : FileTree.symbolic.MarkedPathsAreReadable :=
    ⟨by decide +kernel, by decide +kernel⟩
  obtain ⟨tokens, -, hdrawing, htokens⟩ :=
    ofFileTree_isDrawing ℝ FileTree.symbolic [⟨"d:+", 3.0, 1.0, 4.0⟩] 7
  rw [← htokens hreadable] at hdrawing
  exact ⟨hreadable, hdrawing⟩

end LSystem

end Arbor
