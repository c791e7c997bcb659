import Mathlib.Data.Prod.Lex
import Mathlib.Order.Compare
import Arbor.Proofs.Scalar.Real
import Arbor.Scalar.Binary

/-! Scalars whose comparisons order them. Among machine numbers a NaN compares to nothing and the
two zeros are equal, so the laws are those of a total preorder, as far as numbers are numbers. -/

namespace Arbor.Scalar

class IsOrdered (α : Type) [Scalar α] : Prop where
  isNaN_zero : isNaN (0.0 : α) = false
  le_total : ∀ {a b : α}, isNaN a = false → isNaN b = false → a ≤ b ∨ b ≤ a
  le_trans : ∀ {a b c : α}, isNaN a = false → isNaN b = false → isNaN c = false →
    a ≤ b → b ≤ c → a ≤ c
  lt_iff_not_le : ∀ {a b : α}, isNaN a = false → isNaN b = false → (a < b ↔ ¬b ≤ a)

/-- Whether comparisons hold between numbers only, so that what is no number is neither less than
anything nor greater. -/
class ComparesNumbers (α : Type) [Scalar α] : Prop where
  isNumber_of_lt : ∀ {a b : α}, a < b → isNaN a = false ∧ isNaN b = false
  isNumber_of_le : ∀ {a b : α}, a ≤ b → isNaN a = false ∧ isNaN b = false

/-- Whether two scalars are equal as numbers, as the two zeros of a machine are. -/
def Agree {α : Type} [Scalar α] (a b : α) : Prop :=
  a ≤ b ∧ b ≤ a

namespace IsOrdered

variable {α : Type} [Scalar α] [IsOrdered α] {a b : α}

theorem le_refl (ha : isNaN a = false) : a ≤ a :=
  (le_total ha ha).elim id id

theorem le_of_lt (ha : isNaN a = false) (hb : isNaN b = false) (h : a < b) : a ≤ b :=
  (le_total ha hb).resolve_right ((lt_iff_not_le ha hb).1 h)

/-- Of two numbers, one is no greater than the other. -/
theorem le_of_not_lt (ha : isNaN a = false) (hb : isNaN b = false) (h : ¬a < b) : b ≤ a := by
  rwa [lt_iff_not_le ha hb, not_not] at h

end IsOrdered

instance : IsOrdered ℝ where
  isNaN_zero := rfl
  le_total _ _ := total_of (· ≤ ·) _ _
  le_trans _ _ _ h h' := h.trans h'
  lt_iff_not_le _ _ := not_le.symm

instance : ComparesNumbers ℝ where
  isNumber_of_lt _ := ⟨rfl, rfl⟩
  isNumber_of_le _ := ⟨rfl, rfl⟩

theorem agree_real_iff {a b : ℝ} : Agree a b ↔ a = b :=
  le_antisymm_iff.symm

/-! ### Machine numbers -/

open Float.Model (UnpackedFloat)

def rankOf (group exponent mantissa : ℤ) : ℤ ×ₗ ℤ ×ₗ ℤ :=
  toLex (group, toLex (exponent, mantissa))

def rank : UnpackedFloat → ℤ ×ₗ ℤ ×ₗ ℤ
  | .infinity .negative => rankOf (-2) 0 0
  | .finite .negative mantissa exponent _ => rankOf (-1) (-exponent) (-mantissa)
  | .zero _ => rankOf 0 0 0
  | .finite .positive mantissa exponent _ => rankOf 1 exponent mantissa
  | .infinity .positive => rankOf 2 0 0
  | .notANumber => rankOf 3 0 0

theorem rank_finite_negative (m : ℕ) (e : ℤ) (h : 0 < m) :
    rank (.finite .negative m e h) = rankOf (-1) (-e) (-m) := rfl

theorem rank_finite_positive (m : ℕ) (e : ℤ) (h : 0 < m) :
    rank (.finite .positive m e h) = rankOf 1 e m := rfl

theorem compare_rankOf (group exponent mantissa exponent' mantissa' : ℤ) :
    compare (rankOf group exponent mantissa) (rankOf group exponent' mantissa') =
      (compare exponent exponent').then (compare mantissa mantissa') := by
  have hgroup : compare group group = .eq := Std.compare_self
  calc compare (rankOf group exponent mantissa) (rankOf group exponent' mantissa')
      = (compare group group).then
          ((compare exponent exponent').then (compare mantissa mantissa')) := rfl
    _ = (compare exponent exponent').then (compare mantissa mantissa') := by
      rw [hgroup]
      rfl

/-- Places in the order are compared by the group, then the exponent, then the mantissa. -/
theorem rankOf_le_rankOf {group exponent mantissa group' exponent' mantissa' : ℤ} :
    rankOf group exponent mantissa ≤ rankOf group' exponent' mantissa' ↔
      group < group' ∨
        group = group' ∧ (exponent < exponent' ∨ exponent = exponent' ∧ mantissa ≤ mantissa') := by
  simp only [rankOf, Prod.Lex.toLex_le_toLex]

theorem compare_neg_neg (m n : ℤ) : compare (-m) (-n) = (compare m n).swap := by
  rw [Int.compare_swap]
  simp only [Int.compare_eq_ite_le, Int.neg_le_neg_iff]

theorem compare_natCast (m n : ℕ) : compare (m : ℤ) n = compare m n := by
  simp only [Int.compare_eq_ite_le, Nat.compare_eq_ite_le, Int.ofNat_le]

/-- Machine numbers compare as their ranks do. -/
theorem compare_eq_compare_rank {a b : UnpackedFloat} (ha : a.isNaN = false)
    (hb : b.isNaN = false) : a.compare b = some (compare (rank a) (rank b)) := by
  cases a with
  | notANumber => cases ha
  | infinity s =>
    cases b with
    | notANumber => cases hb
    | infinity t => cases s <;> cases t <;> rfl
    | zero t => cases s <;> rfl
    | finite t => cases s <;> cases t <;> rfl
  | zero s =>
    cases b with
    | notANumber => cases hb
    | infinity t => cases t <;> rfl
    | zero t => rfl
    | finite t => cases t <;> rfl
  | finite s m e =>
    cases b with
    | notANumber => cases hb
    | infinity t => cases s <;> cases t <;> rfl
    | zero t => cases s <;> rfl
    | finite t n e' =>
      -- Only of two numbers of one sign do exponents and mantissas decide.
      cases s <;> cases t
      case negative.negative =>
        rw [rank_finite_negative, rank_finite_negative, compare_rankOf, compare_neg_neg,
          compare_neg_neg, compare_natCast, ← Ordering.swap_then]
        rfl
      case positive.positive =>
        rw [rank_finite_positive, rank_finite_positive, compare_rankOf, compare_natCast]
        rfl
      all_goals rfl

/-- Only numbers compare to each other. -/
theorem isNumber_of_compare {a b : UnpackedFloat} {order : Ordering}
    (h : a.compare b = some order) : a.isNaN = false ∧ b.isNaN = false := by
  cases a with
  | notANumber => cases h
  | infinity s | zero s | finite s =>
    cases b with
    | notANumber => cases h
    | infinity t | zero t | finite t => exact ⟨rfl, rfl⟩

/-- Numbers of the machine are compared as their places in the order are. -/
theorem le_float32_iff {a b : Float32} (ha : isNaN a = false) (hb : isNaN b = false) :
    a ≤ b ↔ rank a.toModel.unpack ≤ rank b.toModel.unpack := by
  have hmodel : a ≤ b ↔ a.toModel.unpack.le b.toModel.unpack = true := decide_eq_true_iff
  rw [hmodel, UnpackedFloat.le, compare_eq_compare_rank ha hb, Option.any_some]
  exact Ordering.isLE_iff_ne_gt.trans compare_le_iff_le

theorem lt_float32_iff {a b : Float32} (ha : isNaN a = false) (hb : isNaN b = false) :
    a < b ↔ rank a.toModel.unpack < rank b.toModel.unpack := by
  have hmodel : a < b ↔ a.toModel.unpack.lt b.toModel.unpack = true := decide_eq_true_iff
  rw [hmodel, UnpackedFloat.lt, compare_eq_compare_rank ha hb, beq_iff_eq, Option.some_inj,
    compare_lt_iff_lt]

instance : IsOrdered Float32 where
  isNaN_zero := by decide +kernel
  le_total ha hb := by
    rw [le_float32_iff ha hb, le_float32_iff hb ha]
    exact total_of (· ≤ ·) _ _
  le_trans ha hb hc := by
    rw [le_float32_iff ha hb, le_float32_iff hb hc, le_float32_iff ha hc]
    exact fun h h' => h.trans h'
  lt_iff_not_le ha hb := by
    rw [lt_float32_iff ha hb, le_float32_iff hb ha, not_le]

instance : ComparesNumbers Float32 where
  isNumber_of_lt {a b} h := by
    have hmodel : a.toModel.unpack.lt b.toModel.unpack = true := of_decide_eq_true h
    rw [UnpackedFloat.lt, beq_iff_eq] at hmodel
    exact isNumber_of_compare hmodel
  isNumber_of_le {a b} h := by
    have hmodel : a.toModel.unpack.le b.toModel.unpack = true := of_decide_eq_true h
    rw [UnpackedFloat.le, Option.any_eq_true] at hmodel
    obtain ⟨order, hcompare, -⟩ := hmodel
    exact isNumber_of_compare hcompare

/-- Two numbers agree where the machine's own test for equality holds, the zeros included. -/
theorem agree_float32_iff {a b : Float32} (ha : isNaN a = false) (hb : isNaN b = false) :
    Agree a b ↔ a == b := by
  have hmodel : (a == b) = (a.toModel.unpack.compare b.toModel.unpack == some .eq) := rfl
  rw [Agree, le_float32_iff ha hb, le_float32_iff hb ha, ← le_antisymm_iff, hmodel,
    compare_eq_compare_rank ha hb, beq_iff_eq, Option.some_inj, compare_eq_iff_eq]

end Arbor.Scalar
