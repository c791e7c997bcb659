import Mathlib.Algebra.Order.Field.Basic
import Mathlib.Order.Interval.Set.Basic
import Mathlib.Tactic.FieldSimp
import Mathlib.Tactic.Linarith
import Mathlib.Tactic.Positivity
import Arbor.Proofs.Symbols.Scan
import Arbor.Proofs.Turtle.Rigid

/-! Decimal numbers, written and read back. In exact arithmetic nothing but the rounding is lost on
the way: a number that is written to some places, at least one, is read as the nearest multiple of a
unit of the last place. -/

namespace Arbor

open Decimal Decimal.Fixed

/-! ### Rounding -/

/-- Rounding moves a number by at most half a unit. -/
theorem abs_nearestEven_sub_le {x : ℝ} (h : 0 ≤ x) : |(nearestEven x : ℝ) - x| ≤ 1 / 2 := by
  have hlower := Nat.floor_le h
  have hupper := Nat.lt_floor_add_one x
  unfold nearestEven
  rw [abs_le]
  split
  case isTrue hdown =>
    have hhalf : x - ⌊x⌋₊ ≤ 1 / 2 := by
      rcases hdown with hlt | ⟨heq, -⟩
      · exact hlt.le
      · exact heq.le
    constructor <;> linarith
  case isFalse hup =>
    have hhalf : 1 / 2 ≤ x - ⌊x⌋₊ := by
      rw [not_or, not_lt] at hup
      exact hup.1
    push_cast
    constructor <;> linarith

theorem le_nearestEven {x : ℝ} {n : ℕ} (h : n ≤ x) : n ≤ nearestEven x := by
  have hnear := (abs_le.1 (abs_nearestEven_sub_le (n.cast_nonneg.trans h))).1
  have hlt : (n : ℝ) < nearestEven x + 1 := by linarith
  exact Nat.lt_succ_iff.1 (by exact_mod_cast hlt)

theorem nearestEven_le {x : ℝ} {n : ℕ} (hx : 0 ≤ x) (h : x ≤ n) : nearestEven x ≤ n := by
  have hnear := (abs_le.1 (abs_nearestEven_sub_le hx)).2
  have hlt : (nearestEven x : ℝ) < n + 1 := by linarith
  exact Nat.lt_succ_iff.1 (by exact_mod_cast hlt)

namespace Scalar

noncomputable def rounded (places : ℕ) (x : ℝ) : ℝ :=
  let size := (nearestEven (|x| * 10.0 ^ places) : ℝ) / 10.0 ^ places
  if x < 0 then -size else size

variable {places : ℕ} {x : ℝ}

/-- A number is rounded without its sign, to a whole number of units of the last place. -/
theorem rounded_eq (places : ℕ) (x : ℝ) :
    rounded places x =
      if x < 0 then -((nearestEven (|x| * 10 ^ places) : ℝ) / 10 ^ places)
      else (nearestEven (|x| * 10 ^ places) : ℝ) / 10 ^ places := by
  rw [rounded, ten_real]

theorem abs_rounded (places : ℕ) (x : ℝ) :
    |rounded places x| = nearestEven (|x| * 10 ^ places) / 10 ^ places := by
  have hsize : (0 : ℝ) ≤ nearestEven (|x| * 10 ^ places) / 10 ^ places := by positivity
  rw [rounded_eq]
  split
  · rw [abs_neg, abs_of_nonneg hsize]
  · rw [abs_of_nonneg hsize]

theorem rounded_of_nonneg (h : 0 ≤ x) : rounded places x = |rounded places x| := by
  rw [abs_rounded, rounded_eq, if_neg (not_lt.2 h)]

/-- The sign is kept, so a rounded number is as far from the given one as its size from its size. -/
theorem abs_rounded_sub (places : ℕ) (x : ℝ) :
    |rounded places x - x| = |(nearestEven (|x| * 10 ^ places) / 10 ^ places - |x|)| := by
  rw [rounded_eq]
  split
  case isTrue h =>
    rw [abs_of_neg h, ← abs_neg]
    ring_nf
  case isFalse h => rw [abs_of_nonneg (not_lt.1 h)]

/-- Rounding to some places is off by half a unit of the last place at most. -/
theorem abs_rounded_sub_le (places : ℕ) (x : ℝ) :
    |rounded places x - x| ≤ 1 / 2 / 10 ^ places := by
  have hpow : (0 : ℝ) < 10 ^ places := by positivity
  have hnear := abs_nearestEven_sub_le (mul_nonneg (abs_nonneg x) hpow.le)
  have hscaled : (nearestEven (|x| * 10 ^ places) : ℝ) / 10 ^ places - |x| =
      (nearestEven (|x| * 10 ^ places) - |x| * 10 ^ places) / 10 ^ places := by
    field_simp
  rw [abs_rounded_sub, hscaled, abs_div, abs_of_pos hpow]
  exact div_le_div_of_nonneg_right hnear hpow.le

/-- A bound that is written to the same places is kept. -/
theorem abs_rounded_le {units : ℕ} (h : |x| ≤ units / 10 ^ places) :
    |rounded places x| ≤ units / 10 ^ places := by
  have hpow : (0 : ℝ) < 10 ^ places := by positivity
  rw [le_div_iff₀ hpow] at h
  have hunits := nearestEven_le (mul_nonneg (abs_nonneg x) hpow.le) h
  rw [abs_rounded]
  exact div_le_div_of_nonneg_right (Nat.cast_le.2 hunits) hpow.le

/-- Rounding does not fall below a bound that has no more places. -/
theorem le_abs_rounded {units : ℕ} (h : units / 10 ^ places ≤ |x|) :
    units / 10 ^ places ≤ |rounded places x| := by
  have hpow : (0 : ℝ) < 10 ^ places := by positivity
  rw [div_le_iff₀ hpow] at h
  rw [abs_rounded]
  exact div_le_div_of_nonneg_right (Nat.cast_le.2 (le_nearestEven h)) hpow.le

/-- A range whose ends have no more places is kept by rounding. -/
theorem rounded_mem_Icc {low high : ℕ}
    (h : x ∈ Set.Icc ((low : ℝ) / 10 ^ places) (high / 10 ^ places)) :
    rounded places x ∈ Set.Icc ((low : ℝ) / 10 ^ places) (high / 10 ^ places) := by
  obtain ⟨hlow, hhigh⟩ := h
  have hnonneg : 0 ≤ x := le_trans (by positivity) hlow
  rw [← abs_of_nonneg hnonneg] at hlow hhigh
  rw [rounded_of_nonneg hnonneg]
  exact ⟨le_abs_rounded hlow, abs_rounded_le hhigh⟩

end Scalar

/-! ### Reading -/

theorem Decimal.Fixed.isDigit_of_mem_fractionText {places units : ℕ} {c : Char}
    (h : c ∈ fractionText places units) : c.isDigit := by
  rcases List.mem_append.1 h with hpad | hdigit
  · rw [List.eq_of_mem_replicate hpad]
    rfl
  · exact Nat.isDigit_of_mem_toDigits (by decide) (by decide) hdigit

theorem Decimal.Fixed.length_fractionText {places : ℕ} (h : 0 < places) (units : ℕ) :
    (fractionText places units).length = places := by
  have hlt : units % tenPow places < 10 ^ places := Nat.mod_lt _ (tenPow_pos places)
  have hle := (Nat.length_toDigits_le_iff (by decide) h).2 hlt
  rw [fractionText, List.length_leftpad]
  omega

namespace Numeral

theorem natural_toDigits (n : ℕ) : natural (Nat.toDigits 10 n) = n :=
  Nat.ofDigitChars_ten_toDigits

/-- Digits in front are worth a power of ten more for each digit behind them. -/
theorem natural_append (first second : Word) :
    natural (first ++ second) = 10 ^ second.length * natural first + natural second := by
  have hsplit : natural (first ++ second) = Nat.ofDigitChars 10 second (natural first) :=
    Nat.ofDigitChars_append 0
  rw [hsplit, Nat.ofDigitChars_eq_ofDigitChars_zero]
  rfl

theorem natural_fractionText (places units : ℕ) :
    natural (fractionText places units) = units % tenPow places := by
  have hzeros (n : ℕ) : natural (List.replicate n '0') = 0 := Nat.ofDigitChars_replicate_zero
  rw [fractionText, List.leftpad, natural_append, hzeros, natural_toDigits, Nat.mul_zero,
    Nat.zero_add]

/-- The digits before and behind the point are together those of the units. -/
theorem natural_digits {places : ℕ} (h : 0 < places) (units : ℕ) :
    natural (Nat.toDigits 10 (units / tenPow places) ++ fractionText places units) = units := by
  rw [natural_append, natural_toDigits, natural_fractionText, length_fractionText h]
  exact Nat.div_add_mod units (tenPow places)

def signOf (negative : Bool) : Option Char :=
  if negative then some '-' else none

/-- Digits with a point among them are scanned as they stand. -/
theorem scan?_digits (negative : Bool) {whole fraction : Word} (hne : whole ≠ [])
    (hwhole : ∀ c ∈ whole, c.isDigit) (hfraction : ∀ c ∈ fraction, c.isDigit) :
    scan? (signText negative ++ whole ++ '.' :: fraction) =
      some ⟨signOf negative, whole, some fraction, none⟩ := by
  have hsign : IsSign (signOf negative) := by
    cases negative with
    | false => trivial
    | true => exact Or.inr rfl
  have htext : signText negative = (signOf negative).toList := by cases negative <;> rfl
  -- Behind the digits of the fraction the word ends.
  have hscan := scan?_pointed hsign hwhole hfraction (Or.inl hne) []
  rw [List.takeWhile_nil, List.append_nil, ← List.append_assoc, ← htext] at hscan
  exact hscan

theorem not_isBlank_of_isDigit {c : Char} (h : c.isDigit) : ¬isBlank c := by
  have hcode : 48 ≤ c.toNat ∧ c.toNat ≤ 57 := Char.isDigit_iff_toNat.1 h
  simp only [isBlank, Bool.or_eq_true, Bool.and_eq_true, decide_eq_true_eq, beq_iff_eq]
  omega

theorem dropWhile_isBlank {c : Char} (h : c = '-' ∨ c.isDigit) (rest : Word) :
    (c :: rest).dropWhile isBlank = c :: rest := by
  apply List.dropWhile_cons_of_neg
  rcases h with rfl | hdigit
  · decide
  · exact not_isBlank_of_isDigit hdigit

/-- The text of a decimal is read as its sign, its digits and nothing else. -/
theorem leading?_text {places : ℕ} (negative : Bool) (units : ℕ) :
    leading? (finite negative units : Fixed places).text =
      some ⟨signOf negative, Nat.toDigits 10 (units / tenPow places),
        some (fractionText places units), none⟩ := by
  have hdigits : ∀ c ∈ Nat.toDigits 10 (units / tenPow places), c.isDigit := by
    intro c
    exact Nat.isDigit_of_mem_toDigits (by decide) (by decide)
  have hfraction : ∀ c ∈ fractionText places units, c.isDigit :=
    fun _ => isDigit_of_mem_fractionText
  have hscan := scan?_digits negative Nat.toDigits_ne_nil hdigits hfraction
  -- A sign or a digit comes first, and no blank is skipped.
  have hfront : (finite negative units : Fixed places).text.dropWhile isBlank =
      (finite negative units : Fixed places).text := by
    have hne : Nat.toDigits 10 (units / tenPow places) ≠ [] := Nat.toDigits_ne_nil
    obtain ⟨first, others, hwhole⟩ := List.exists_cons_of_ne_nil hne
    rw [hwhole] at hdigits
    rw [Fixed.text, hwhole]
    cases negative with
    | false => exact dropWhile_isBlank (Or.inr (hdigits first List.mem_cons_self)) _
    | true => exact dropWhile_isBlank (Or.inl rfl) _
  rw [leading?, hfront]
  exact hscan

/-- The point shifts the digits down by as many places as stand behind it. -/
theorem value_digits (negative : Bool) (whole : Word) {fraction : Word} (h : fraction ≠ []) :
    (value ⟨signOf negative, whole, some fraction, none⟩ : ℝ) =
      if negative then -((natural (whole ++ fraction) : ℝ) / 10 ^ fraction.length)
      else (natural (whole ++ fraction) : ℝ) / 10 ^ fraction.length := by
  have hscale : (⟨signOf negative, whole, some fraction, none⟩ : Numeral).scale =
      -(fraction.length : Int) := Int.zero_sub _
  have hneg : -(fraction.length : Int) < 0 := by
    have hpos := List.length_pos_iff.2 h
    omega
  rw [value, hscale, Int.natAbs_neg, Int.natAbs_natCast, Option.getD_some, decide_eq_true hneg,
    Scalar.ofScientific_real]
  cases negative <;> rfl

/-- What is written to some places, at least one, is read as the same multiple of a unit of the last
place. -/
theorem valueOr_text {places : ℕ} (h : 0 < places) (negative : Bool) (units : ℕ) (default : ℝ) :
    valueOr (some (finite negative units : Fixed places).text) default =
      if negative then -((units : ℝ) / 10 ^ places) else (units : ℝ) / 10 ^ places := by
  have hne : fractionText places units ≠ [] := by
    rw [← List.length_pos_iff, length_fractionText h]
    exact h
  rw [valueOr_real, Option.bind_some, leading?_text, Option.map_some, Option.getD_some,
    value_digits negative _ hne, natural_digits h, length_fractionText h]

/-- A number that is written to some places, at least one, is read rounded to them. -/
theorem valueOr_toFixed {places : ℕ} (h : 0 < places) (x default : ℝ) :
    valueOr (some (Scalar.toFixed places x).text) default = Scalar.rounded places x := by
  have hread := valueOr_text h (decide (x < 0)) (nearestEven (|x| * 10 ^ places)) default
  simp only [decide_eq_true_eq, ← Scalar.rounded_eq] at hread
  exact hread

end Numeral

end Arbor
