import Mathlib.Analysis.Real.Sqrt
import Mathlib.Algebra.Order.Archimedean.Real.Basic
import Arbor.Scalar.Basic

/-! The reals as scalars, for statements about exact arithmetic. Every real counts as a number of
finite size. Places of cells still end with the signed 32-bit range; counts do not end. -/

namespace Arbor

open Decimal (Fixed)

noncomputable def nearestEven (x : ℝ) : Nat :=
  if x - ⌊x⌋₊ < 1 / 2 ∨ (x - ⌊x⌋₊ = 1 / 2 ∧ Even ⌊x⌋₊) then ⌊x⌋₊ else ⌊x⌋₊ + 1

noncomputable instance : Scalar ℝ where
  decLt _ _ := Classical.propDecidable _
  decLe _ _ := Classical.propDecidable _
  sqrt := Real.sqrt
  isNaN _ := false
  isFinite _ := true
  floorInt32 x := max minInt32 (min maxInt32 ⌊x⌋)
  ceilNat x := ⌈x⌉₊
  toFixed places x := .finite (decide (x < 0)) (nearestEven (|x| * 10 ^ places))

namespace Scalar

@[simp]
theorem isNaN_real (x : ℝ) : isNaN x = false := rfl

@[simp]
theorem isFinite_real (x : ℝ) : isFinite x = true := rfl

/-- A decimal is a natural number of units of its last place. -/
theorem ofScientific_real (units places : ℕ) :
    @OfScientific.ofScientific ℝ Scalar.toOfScientific units true places =
      units / 10 ^ places := by
  have hquotient := NNRatCast.ofScientific_eq_ite (K := ℝ) units true places
  rw [if_pos rfl] at hquotient
  refine hquotient.trans ?_
  rw [NNRat.cast_divNat_of_ne_zero]
  · norm_cast
  · positivity

theorem zero_real : (0.0 : ℝ) = 0 := by norm_num

theorem one_real : (1.0 : ℝ) = 1 := by norm_num

theorem two_real : (2.0 : ℝ) = 2 := by norm_num

theorem ten_real : (10.0 : ℝ) = 10 := by norm_num

theorem sqrt_real (x : ℝ) : sqrt x = √x := rfl

theorem floorInt32_real (x : ℝ) : floorInt32 x = max minInt32 (min maxInt32 ⌊x⌋) := rfl

theorem ceilNat_real (x : ℝ) : ceilNat x = ⌈x⌉₊ := rfl

/-- A floor is always kept inside the range. -/
theorem floorInt32_mem (x : ℝ) : minInt32 ≤ floorInt32 x ∧ floorInt32 x ≤ maxInt32 := by
  have hle : minInt32 ≤ maxInt32 := by decide
  rw [floorInt32_real]
  omega

/-- A floor inside the range is found by its two bounds. -/
theorem floorInt32_eq {x : ℝ} {k : Int} (hlower : k ≤ x) (hupper : x < k + 1)
    (hk : minInt32 ≤ k ∧ k ≤ maxInt32) : floorInt32 x = k := by
  rw [floorInt32_real, Int.floor_eq_iff.2 ⟨hlower, hupper⟩]
  omega

theorem floorInt32_mono {x y : ℝ} (h : x ≤ y) : floorInt32 x ≤ floorInt32 y := by
  have hfloor := Int.floor_le_floor h
  rw [floorInt32_real, floorInt32_real]
  omega

/-- Numbers at most `reach` apart have floors at most `reach` apart, also where these are cut off.
-/
theorem floorInt32_sub_le {x y : ℝ} {reach : Nat} (h : |x - y| ≤ reach) :
    floorInt32 x - reach ≤ floorInt32 y ∧ floorInt32 y ≤ floorInt32 x + reach := by
  obtain ⟨hlower, hupper⟩ := abs_le.1 h
  have hup : ⌊y⌋ ≤ ⌊x⌋ + reach := by
    rw [← Int.floor_add_natCast]
    exact Int.floor_le_floor (by linarith)
  have hdown : ⌊x⌋ ≤ ⌊y⌋ + reach := by
    rw [← Int.floor_add_natCast]
    exact Int.floor_le_floor (by linarith)
  rw [floorInt32_real, floorInt32_real]
  omega

/-- Clamping is by the lattice operations where the bounds do not cross. -/
theorem clamp_real {x lo hi : ℝ} (h : lo ≤ hi) : clamp x lo hi = max lo (min hi x) := by
  unfold clamp
  split
  case isTrue hlo => rw [min_eq_right (hlo.le.trans h), max_eq_left hlo.le]
  case isFalse hlo =>
    rw [not_lt] at hlo
    split
    case isTrue hhi => rw [min_eq_left hhi.le, max_eq_right h]
    case isFalse hhi => rw [min_eq_right (not_lt.1 hhi), max_eq_right hlo]

theorem clamp_unit (x : ℝ) : clamp x 0.0 1.0 = max 0 (min 1 x) := by
  rw [zero_real, one_real, clamp_real zero_le_one]

/-- Every number is one, so nothing is passed over. -/
theorem maxNum_real (x y : ℝ) : maxNum x y = max x y := by
  rw [maxNum, isNaN_real]
  split
  case isTrue h => rw [max_eq_right (h.resolve_right nofun).le]
  case isFalse h => rw [max_eq_left (not_lt.1 fun hlt => h (Or.inl hlt))]

/-- The largest of a start and the sizes of some entries is the least that bounds all of them. -/
theorem foldl_maxNum_le_iff {γ : Type} (size : γ → ℝ) (list : List γ) (start bound : ℝ) :
    list.foldl (fun largest entry => maxNum largest (size entry)) start ≤ bound ↔
      start ≤ bound ∧ ∀ entry ∈ list, size entry ≤ bound := by
  induction list generalizing start with
  | nil => exact (and_iff_left (List.forall_mem_nil _)).symm
  | cons entry list ih =>
    rw [List.foldl_cons, ih, maxNum_real, max_le_iff, and_assoc, List.forall_mem_cons]

end Scalar

end Arbor
