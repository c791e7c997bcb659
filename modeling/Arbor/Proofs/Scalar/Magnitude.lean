import Arbor.Proofs.Scalar.Encoding

/-! How large single-precision numbers get. The magnitude of a number is the place of its leading
digit, and each operation moves it by a known number of places, whatever is rounded away. -/

namespace Arbor.Machine

open Float.Model (Format UnpackedFloat totalExponent)
open Float.Model.UnpackedFloat

theorem targetExponent_mono {a b : ℤ} (h : a ≤ b) :
    Format.binary32.targetExponent a ≤ Format.binary32.targetExponent b :=
  max_le_max_right _ (sub_le_sub_right h _)

/-! ### Leading digits -/

theorem log2_mono {m n : ℕ} (hm : 0 < m) (h : m ≤ n) : m.log2 ≤ n.log2 :=
  (Nat.le_log2 (hm.trans_le h).ne').2 ((Nat.log2_self_le hm.ne').trans h)

theorem log2_div_two_pow {m n : ℕ} (hm : 0 < m) (h : n ≤ m.log2) :
    0 < m / 2 ^ n ∧ (m / 2 ^ n).log2 = m.log2 - n := by
  have hlow : 2 ^ (m.log2 - n) ≤ m / 2 ^ n := by
    rw [Nat.le_div_iff_mul_le (Nat.two_pow_pos n), ← pow_add, Nat.sub_add_cancel h]
    exact Nat.log2_self_le hm.ne'
  have hhigh : m / 2 ^ n < 2 ^ (m.log2 - n + 1) := by
    rw [Nat.div_lt_iff_lt_mul (Nat.two_pow_pos n), ← pow_add, Nat.add_right_comm,
      Nat.sub_add_cancel h]
    exact Nat.lt_log2_self
  have hpos : 0 < m / 2 ^ n := (Nat.two_pow_pos _).trans_le hlow
  exact ⟨hpos, (Nat.log2_eq_iff hpos.ne').2 ⟨hlow, hhigh⟩⟩

/-- A shift to the left moves the leading digit. -/
theorem log2_shiftLeft {n : ℕ} (hn : 0 < n) (k : ℕ) : (n <<< k).log2 = n.log2 + k := by
  rw [Nat.log2_eq_iff (Nat.shiftLeft_pos_iff.2 hn).ne', Nat.shiftLeft_eq, pow_add,
    Nat.add_right_comm, pow_add]
  exact ⟨Nat.mul_le_mul_right _ (Nat.log2_self_le hn.ne'),
    Nat.mul_lt_mul_of_pos_right Nat.lt_log2_self (Nat.two_pow_pos k)⟩

/-- A product has its leading digit where those of the factors add up to, or one place further. -/
theorem log2_mul {m n : ℕ} (hm : 0 < m) (hn : 0 < n) :
    m.log2 + n.log2 ≤ (m * n).log2 ∧ (m * n).log2 ≤ m.log2 + n.log2 + 1 := by
  have hmn : m * n ≠ 0 := (Nat.mul_pos hm hn).ne'
  constructor
  · rw [Nat.le_log2 hmn, pow_add]
    exact Nat.mul_le_mul (Nat.log2_self_le hm.ne') (Nat.log2_self_le hn.ne')
  · rw [← Nat.lt_succ_iff, Nat.log2_lt hmn]
    calc m * n < 2 ^ (m.log2 + 1) * 2 ^ (n.log2 + 1) :=
        Nat.mul_lt_mul'' Nat.lt_log2_self Nat.lt_log2_self
      _ = 2 ^ (m.log2 + n.log2 + 1 + 1) := by
        rw [← pow_add]
        congr 1
        omega

/-! ### Rounding -/

theorem mantissa_shiftRight (em : ExtendedMantissa) (n : ℕ) :
    (em >>> n).mantissa = em.mantissa / 2 ^ n := by
  induction n with
  | zero => exact (Nat.div_one _).symm
  | succ n ih =>
    have hstep : (em >>> (n + 1)).mantissa = (em >>> n).mantissa / 2 := rfl
    rw [hstep, ih, Nat.div_div_eq_div_mul, Nat.pow_succ]

theorem mantissa_ofMantissaAndAccuracy (m : ℕ) (accuracy : Accuracy) :
    (ExtendedMantissa.ofMantissaAndAccuracy m accuracy).mantissa = m := by
  cases accuracy with
  | exact => rfl
  | inexact order => cases order <;> rfl

/-- Rounding never goes below the mantissa that is left. -/
theorem le_roundedMantissa (em : ExtendedMantissa) : em.mantissa ≤ em.roundedMantissa := by
  obtain ⟨m, roundBit, stickyBit⟩ := em
  cases roundBit <;> cases stickyBit
  · exact le_rfl
  · exact le_rfl
  · exact Nat.le_add_right m (m % 2)
  · exact Nat.le_succ m

/-- Rounding adds one to the mantissa that is left at most. -/
theorem roundedMantissa_le (em : ExtendedMantissa) : em.roundedMantissa ≤ em.mantissa + 1 := by
  obtain ⟨m, roundBit, stickyBit⟩ := em
  cases roundBit <;> cases stickyBit
  · exact Nat.le_succ m
  · exact Nat.le_succ m
  · exact Nat.add_le_add_left (Nat.le_of_lt_succ (Nat.mod_lt m two_pos)) m
  · exact le_rfl

/-- A rounded mantissa has one digit more at most, where the last digit is carried through. -/
theorem log2_roundedMantissa_le {em : ExtendedMantissa} (h : 0 < em.mantissa) :
    em.roundedMantissa.log2 ≤ em.mantissa.log2 + 1 := by
  have hrounded : 0 < em.roundedMantissa := h.trans_le (le_roundedMantissa em)
  rw [← Nat.lt_succ_iff, Nat.log2_lt hrounded.ne']
  calc em.roundedMantissa ≤ em.mantissa + 1 := roundedMantissa_le em
    _ ≤ 2 ^ (em.mantissa.log2 + 1) := Nat.lt_log2_self
    _ < 2 ^ (em.mantissa.log2 + 1 + 1) := Nat.pow_lt_pow_succ one_lt_two

/-- Moving a number to its target exponent drops digits from its end and leaves the leading digit
where it is, unless the number is too small to be represented. -/
theorem shiftToTargetExponent_spec {m : ℕ} {e : ℤ} (accuracy : Accuracy) (hm : 0 < m)
    (hlow : -148 ≤ totalExponent m e)
    (he : e ≤ Format.binary32.targetExponent (totalExponent m e)) :
    ∃ em, shiftToTargetExponent .binary32 m e accuracy =
        (em, Format.binary32.targetExponent (totalExponent m e)) ∧ 0 < em.mantissa ∧
      totalExponent em.mantissa (Format.binary32.targetExponent (totalExponent m e)) =
        totalExponent m e := by
  obtain ⟨n, hn⟩ := Int.le.dest he
  have hamount : (Format.binary32.targetExponent (totalExponent m e) - e).toNat = n := by omega
  -- The number is not too small, so its leading digit is kept.
  have hdigits : n ≤ m.log2 := by
    rw [targetExponent_eq] at hn
    rw [totalExponent_eq] at hn hlow
    omega
  obtain ⟨hpos, hlog⟩ := log2_div_two_pow hm hdigits
  have hmantissa : (ExtendedMantissa.ofMantissaAndAccuracy m accuracy >>> n).mantissa =
      m / 2 ^ n := by
    rw [mantissa_shiftRight, mantissa_ofMantissaAndAccuracy]
  refine ⟨ExtendedMantissa.ofMantissaAndAccuracy m accuracy >>> n, ?_, ?_, ?_⟩
  · rw [shiftToTargetExponent, shiftToExponent, hamount, hn]
  · rwa [hmantissa]
  · rw [hmantissa, ← hn, totalExponent_eq, hlog, totalExponent_eq]
    omega

/-- Rounding moves the leading digit up by one place at most, and never down. -/
theorem roundWithAccuracy_spec (s : Sign) {m : ℕ} {e : ℤ} (accuracy : Accuracy) (hm : 0 < m)
    (hlow : -148 ≤ totalExponent m e)
    (he : e ≤ Format.binary32.targetExponent (totalExponent m e)) :
    ∃ m' e' h, roundWithAccuracy .binary32 s m e accuracy = .finite s m' e' h ∧
      Canonical m' e' ∧ totalExponent m e ≤ totalExponent m' e' ∧
      totalExponent m' e' ≤ totalExponent m e + 1 := by
  obtain ⟨em, hfirst, hem, htotal⟩ := shiftToTargetExponent_spec accuracy hm hlow he
  set target := Format.binary32.targetExponent (totalExponent m e)
  have hrounded : 0 < em.roundedMantissa := hem.trans_le (le_roundedMantissa em)
  have hnotDown : totalExponent m e ≤ totalExponent em.roundedMantissa target := by
    have := log2_mono hem (le_roundedMantissa em)
    rw [← htotal, totalExponent_eq, totalExponent_eq]
    omega
  have honeUp : totalExponent em.roundedMantissa target ≤ totalExponent m e + 1 := by
    have := log2_roundedMantissa_le hem
    rw [← htotal, totalExponent_eq, totalExponent_eq]
    omega
  -- Rounding up can make room for one digit less, hence the second shift.
  obtain ⟨em', hsecond, hem', htotal'⟩ := shiftToTargetExponent_spec .exact hrounded
    (hlow.trans hnotDown) (targetExponent_mono hnotDown)
  refine ⟨em'.mantissa, Format.binary32.targetExponent (totalExponent em.roundedMantissa target),
    hem', ?_, ?_, ?_, ?_⟩
  · rw [roundWithAccuracy, hfirst]
    dsimp only
    rw [hsecond]
    exact dif_neg hem'.ne'
  · rw [Canonical, htotal']
  · rwa [htotal']
  · rwa [htotal']

/-! ### Operations -/

/-- Whether a machine number is a positive one in canonical form, with its leading digit between
two places. -/
def Spans (lo hi : ℤ) (u : UnpackedFloat) : Prop :=
  ∃ m e h, u = .finite .positive m e h ∧ Canonical m e ∧ lo ≤ totalExponent m e ∧
    totalExponent m e ≤ hi

section

variable {lo hi lo' hi' : ℤ} {u v : UnpackedFloat}

theorem Spans.mono (h : Spans lo hi u) (hlo : lo' ≤ lo) (hhi : hi ≤ hi') : Spans lo' hi' u := by
  obtain ⟨m, e, hm, hu, hcanonical, hlow, hhigh⟩ := h
  exact ⟨m, e, hm, hu, hcanonical, hlo.trans hlow, hhigh.trans hhi⟩

/-- What is not too large for the format comes back as it was stored. -/
theorem Spans.unpack_pack (h : Spans lo hi u) (hhi : hi ≤ 128) :
    unpack .binary32 (pack .binary32 u) = u := by
  obtain ⟨m, e, hm, rfl, hcanonical, -, hhigh⟩ := h
  exact Machine.unpack_pack hm hcanonical (hhigh.trans hhi)

/-- Rounding a positive number moves its leading digit by one place at most. -/
theorem spans_roundWithAccuracy {m : ℕ} {e : ℤ} (hm : 0 < m) (hlow : -148 ≤ totalExponent m e)
    (he : e ≤ Format.binary32.targetExponent (totalExponent m e)) :
    Spans (totalExponent m e) (totalExponent m e + 1)
      (roundWithAccuracy .binary32 .positive m e .exact) := by
  obtain ⟨m', e', h, hround, hcanonical, hlow, hhigh⟩ :=
    roundWithAccuracy_spec .positive .exact hm hlow he
  exact ⟨m', e', h, hround, hcanonical, hlow, hhigh⟩

/-- A product lies between the places that those of its factors add up to, one more at either end.
-/
theorem Spans.mul (hu : Spans lo hi u) (hv : Spans lo' hi' v) (hlow : -147 ≤ lo + lo') :
    Spans (lo + lo' - 1) (hi + hi' + 1) (mul .binary32 u v) := by
  obtain ⟨m, e, hm, rfl, hcanonical, hlo, hhi⟩ := hu
  obtain ⟨m', e', hm', rfl, hcanonical', hlo', hhi'⟩ := hv
  obtain ⟨hleast, hmost⟩ := log2_mul hm hm'
  rw [canonical_iff] at hcanonical hcanonical'
  rw [totalExponent_eq] at hlo hhi hlo' hhi'
  have htotal : totalExponent (m * m') (e + e') = (m * m').log2 + 1 + (e + e') := rfl
  have hproduct := spans_roundWithAccuracy (Nat.mul_pos hm hm') (e := e + e') (by omega)
    (by rw [targetExponent_eq]; omega)
  exact hproduct.mono (by omega) (by omega)

/-- The same of machine numbers, whose product is stored and read again. -/
theorem spans_mul {x y : Float32} (hx : Spans lo hi x.toModel.unpack)
    (hy : Spans lo' hi' y.toModel.unpack) (hlow : -147 ≤ lo + lo') (hhigh : hi + hi' < 128) :
    Spans (lo + lo' - 1) (hi + hi' + 1) (x * y).toModel.unpack := by
  have hproduct := hx.mul hy hlow
  have hstored : (x * y).toModel.unpack = mul .binary32 x.toModel.unpack y.toModel.unpack :=
    hproduct.unpack_pack hhigh
  rwa [hstored]

theorem spans_ofNat {n : ℕ} (hn : 0 < n) (hsmall : n < 2 ^ 23) :
    Spans (n.log2 + 1) (n.log2 + 2) (ofNat .binary32 n) := by
  have hlog : n.log2 < 23 := (Nat.log2_lt hn.ne').2 hsmall
  have hamount : (0 - Format.binary32.targetExponent (totalExponent n 0)).toNat =
      23 - n.log2 := by
    rw [targetExponent_eq, totalExponent_eq]
    omega
  have hsign : compare (n : ℤ) 0 = .gt := compare_gt_iff_gt.2 (Int.natCast_pos.2 hn)
  have hofNat : ofNat .binary32 n = roundWithAccuracy .binary32 .positive
      (n <<< (23 - n.log2)) (0 - (23 - n.log2 : ℕ)) .exact := by
    rw [ofNat, ofInt, UnpackedFloat.normalize, hsign]
    dsimp only
    rw [UnpackedFloat.round, Int.toNat_natCast, decreaseExponent, hamount]
  have htotal : totalExponent (n <<< (23 - n.log2)) (0 - (23 - n.log2 : ℕ)) = n.log2 + 1 := by
    rw [totalExponent_eq, log2_shiftLeft hn]
    omega
  have hround := spans_roundWithAccuracy (Nat.shiftLeft_pos_iff.2 hn)
    (by rw [htotal]; omega) (by rw [targetExponent_eq, htotal]; omega)
  rwa [htotal, ← hofNat] at hround

theorem spans_one : Spans 1 1 (1.0 : Float32).toModel.unpack :=
  ⟨2 ^ 23, -23, by decide, rfl, canonical_iff.2 (by decide), by decide, by decide⟩

/-- Natural numbers are read as decimals are, with a power of ten as a factor. -/
theorem natCast_eq_mul {n : ℕ} (hsmall : n < 2 ^ 23) :
    (n : Float32) = n.toUInt64.toFloat32 * 1.0 :=
  dif_pos ⟨hsmall, by decide⟩

/-- A natural number of at most 23 digits is converted with three places of room. -/
theorem spans_natCast {n : ℕ} (hn : 0 < n) (hsmall : n < 2 ^ 23) :
    Spans (n.log2 + 1) (n.log2 + 4) (n : Float32).toModel.unpack := by
  have hlog : n.log2 < 23 := (Nat.log2_lt hn.ne').2 hsmall
  have hword : n.toUInt64.toNat = n := Nat.mod_eq_of_lt (by omega)
  have hofNat : Spans (n.log2 + 1) (n.log2 + 2)
      (ofNat .binary32 n.toUInt64.toNat) := by
    rw [hword]
    exact spans_ofNat hn hsmall
  have hstored : n.toUInt64.toFloat32.toModel.unpack = ofNat .binary32 n.toUInt64.toNat :=
    hofNat.unpack_pack (by omega)
  rw [natCast_eq_mul hsmall]
  exact (spans_mul (hstored ▸ hofNat) spans_one (by omega) (by omega)).mono (by omega) (by omega)

end

/-! ### Ceilings -/

theorem ceilNat_eq (x : Float32) : Scalar.ceilNat x = (exactValue x.toModel.unpack).ceilNat :=
  congrArg Binary.ceilNat (ofFloat32_eq x)

/-- The ceiling of a number is at most the power of two above the number. -/
theorem ceilNat_le {lo hi : ℤ} {x : Float32} (h : Spans lo hi x.toModel.unpack) (hhi : 0 ≤ hi) :
    Scalar.ceilNat x ≤ 2 ^ hi.toNat := by
  obtain ⟨m, e, hm, hx, -, -, hhigh⟩ := h
  have hden := Binary.denominator_pos e
  have hnum : Binary.numerator m e ≤ 2 ^ hi.toNat * Binary.denominator e := by
    rw [totalExponent_eq] at hhigh
    rw [Binary.numerator, Binary.denominator, Nat.shiftLeft_eq, Nat.one_shiftLeft, ← pow_add]
    calc m * 2 ^ e.toNat ≤ 2 ^ (m.log2 + 1) * 2 ^ e.toNat :=
        Nat.mul_le_mul_right _ Nat.lt_log2_self.le
      _ = 2 ^ (m.log2 + 1 + e.toNat) := (pow_add 2 _ _).symm
      _ ≤ 2 ^ (hi.toNat + (-e).toNat) := Nat.pow_le_pow_right two_pos (by omega)
  calc Scalar.ceilNat x
      = min maxNat64 ((Binary.numerator m e + (Binary.denominator e - 1)) /
          Binary.denominator e) := by
        rw [ceilNat_eq, hx]
        rfl
    _ ≤ (Binary.numerator m e + (Binary.denominator e - 1)) / Binary.denominator e :=
        min_le_right _ _
    _ ≤ 2 ^ hi.toNat := by
        rw [Nat.div_le_iff_le_mul_add_pred hden, Nat.mul_comm]
        omega

theorem ceilNat_of_zero {x : Float32} {s : Sign} (h : x.toModel.unpack = .zero s) :
    Scalar.ceilNat x = 0 := by
  rw [ceilNat_eq, h]
  cases s <;> decide +kernel

theorem ceilNat_of_infinity {x : Float32} (h : x.toModel.unpack = .infinity .positive) :
    Scalar.ceilNat x = maxNat64 := by
  rw [ceilNat_eq, h]
  rfl

/-! ### Signs -/

theorem lt_iff_unpack {x y : Float32} :
    x < y ↔ x.toModel.unpack.lt y.toModel.unpack = true :=
  decide_eq_true_iff

theorem unpack_float32_zero : (0.0 : Float32).toModel.unpack = .zero .positive := rfl

/-- A positive number is finite, with its leading digit where there is room for one, or infinite. -/
theorem finite_or_infinite_of_pos {x : Float32} (hx : 0.0 < x) :
    Scalar.isFinite x = true ∧ Spans (-148) 128 x.toModel.unpack ∨
      Scalar.isFinite x = false ∧ x.toModel.unpack = .infinity .positive := by
  have hfinite : Scalar.isFinite x = x.toModel.unpack.isFinite := rfl
  rw [lt_iff_unpack, unpack_float32_zero] at hx
  rw [hfinite]
  revert hx
  cases hu : x.toModel.unpack with
  | notANumber | zero => exact fun hx => absurd hx Bool.false_ne_true
  | infinity s =>
    cases s with
    | positive => exact fun _ => .inr ⟨rfl, rfl⟩
    | negative => exact fun hx => absurd hx Bool.false_ne_true
  | finite s m e hm =>
    cases s with
    | positive =>
      obtain ⟨hcanonical, hlow, hhigh⟩ := canonical_unpack hu
      exact fun _ => .inl ⟨rfl, m, e, hm, rfl, hcanonical, hlow, hhigh⟩
    | negative => exact fun hx => absurd hx Bool.false_ne_true

/-- A number that is one is positive, negative or one of the two zeros. -/
theorem pos_or_neg_or_zero {x : Float32} (hx : Scalar.isNaN x = false) :
    0.0 < x ∨ x < 0.0 ∨ ∃ s, x.toModel.unpack = .zero s := by
  have hnumber : x.toModel.unpack.isNaN = false := hx
  rw [lt_iff_unpack, lt_iff_unpack, unpack_float32_zero]
  revert hnumber
  cases x.toModel.unpack with
  | notANumber => exact fun hnumber => absurd hnumber.symm Bool.false_ne_true
  | zero s => exact fun _ => .inr (.inr ⟨s, rfl⟩)
  | infinity s | finite s =>
    cases s with
    | positive => exact fun _ => .inl rfl
    | negative => exact fun _ => .inr (.inl rfl)

/-- What is not positive, no number included, is cut off to a zero. -/
theorem unpack_maxNum_zero {x : Float32} (hx : ¬0.0 < x) :
    ∃ s, (Scalar.maxNum x 0.0).toModel.unpack = .zero s := by
  rw [Scalar.maxNum]
  split_ifs with hcut
  · exact ⟨.positive, unpack_float32_zero⟩
  · obtain ⟨hnonneg, hNaN⟩ := not_or.1 hcut
    obtain hpos | hneg | hzero := pos_or_neg_or_zero (Bool.eq_false_of_not_eq_true hNaN)
    · exact absurd hpos hx
    · exact absurd hneg hnonneg
    · exact hzero

/-- The larger of a positive number and zero is the positive one. -/
theorem maxNum_zero_of_pos {x : Float32} (hx : 0.0 < x) : Scalar.maxNum x 0.0 = x := by
  obtain ⟨hzero, hnumber⟩ := Scalar.ComparesNumbers.isNumber_of_lt hx
  have hnonneg : ¬x < 0.0 := fun hneg =>
    (Scalar.IsOrdered.lt_iff_not_le hzero hnumber).1 hx
      (Scalar.IsOrdered.le_of_lt hnumber hzero hneg)
  exact if_neg (not_or.2 ⟨hnonneg, Bool.not_eq_true _ ▸ hnumber⟩)

/-! ### Comparisons -/

/-- The larger of two numbers in canonical form has its leading digit no lower. -/
theorem totalExponent_le {m m' : ℕ} {e e' : ℤ} (hm : 0 < m) (hm' : 0 < m')
    (hcanonical : Canonical m e) (hcanonical' : Canonical m' e')
    (h : Scalar.rank (.finite .positive m e hm) ≤ Scalar.rank (.finite .positive m' e' hm')) :
    totalExponent m e ≤ totalExponent m' e' := by
  rw [Scalar.rank_finite_positive, Scalar.rank_finite_positive, Scalar.rankOf_le_rankOf] at h
  rw [canonical_iff] at hcanonical hcanonical'
  rw [totalExponent_eq, totalExponent_eq]
  obtain hgroup | ⟨-, hexponent | ⟨rfl, hmantissa⟩⟩ := h
  · exact absurd hgroup (lt_irrefl 1)
  · omega
  · have := log2_mono hm (Int.ofNat_le.1 hmantissa)
    omega

/-- A positive number has its leading digit no higher than a larger one. -/
theorem Spans.of_le {lo hi : ℤ} {x y : Float32} (hy : Spans lo hi y.toModel.unpack)
    (hx : 0.0 < x) (hxy : x ≤ y) : Spans (-148) hi x.toModel.unpack := by
  obtain ⟨hnumber, hnumber'⟩ := Scalar.ComparesNumbers.isNumber_of_le hxy
  obtain ⟨m', e', hm', hu', hcanonical', -, hhigh'⟩ := hy
  rw [Scalar.le_float32_iff hnumber hnumber', hu'] at hxy
  obtain ⟨-, m, e, hm, hu, hcanonical, hlow, -⟩ | ⟨-, hinfinite⟩ := finite_or_infinite_of_pos hx
  · rw [hu] at hxy
    exact ⟨m, e, hm, hu, hcanonical, hlow,
      (totalExponent_le hm hm' hcanonical hcanonical' hxy).trans hhigh'⟩
  · rw [hinfinite] at hxy
    obtain hgroup | ⟨hgroup, -⟩ := Scalar.rankOf_le_rankOf.1 hxy <;> omega

/-! ### Zero and infinity as factors -/

theorem unpack_mul (x y : Float32) : (x * y).toModel.unpack =
    unpack .binary32 (pack .binary32 (mul .binary32 x.toModel.unpack y.toModel.unpack)) := rfl

theorem mul_of_zero {lo hi : ℤ} {s : Sign} {x y : Float32} (hx : Spans lo hi x.toModel.unpack)
    (hy : y.toModel.unpack = .zero s) : ∃ s', (x * y).toModel.unpack = .zero s' := by
  obtain ⟨m, e, hm, hx, -⟩ := hx
  have hproduct : mul .binary32 (.finite .positive m e hm) (.zero s) =
      .zero (.positive * s) := rfl
  rw [unpack_mul, hx, hy, hproduct, unpack_pack_zero]
  exact ⟨_, rfl⟩

/-- A positive finite number of infinities is infinite. -/
theorem mul_of_infinity {lo hi : ℤ} {x y : Float32} (hx : Spans lo hi x.toModel.unpack)
    (hy : y.toModel.unpack = .infinity .positive) :
    (x * y).toModel.unpack = .infinity .positive := by
  obtain ⟨m, e, hm, hx, -⟩ := hx
  have hproduct : mul .binary32 (.finite .positive m e hm) (.infinity .positive) =
      .infinity .positive := rfl
  rw [unpack_mul, hx, hy, hproduct, unpack_pack_infinity]

theorem infinity_mul {lo hi : ℤ} {x y : Float32} (hx : x.toModel.unpack = .infinity .positive)
    (hy : Spans lo hi y.toModel.unpack) : (x * y).toModel.unpack = .infinity .positive := by
  obtain ⟨m, e, hm, hy, -⟩ := hy
  have hproduct : mul .binary32 (.infinity .positive) (.finite .positive m e hm) =
      .infinity .positive := rfl
  rw [unpack_mul, hx, hy, hproduct, unpack_pack_infinity]

/-- Infinity by anything is infinite or no number. -/
theorem infinity_div (u : UnpackedFloat) : div .binary32 (.infinity .positive) u = .notANumber ∨
    ∃ s, div .binary32 (.infinity .positive) u = .infinity s := by
  cases u with
  | notANumber | infinity s => exact .inl rfl
  | zero s | finite s => exact .inr ⟨_, rfl⟩

theorem isFinite_infinity_div {x y : Float32} (hx : x.toModel.unpack = .infinity .positive) :
    Scalar.isFinite (x / y) = false := by
  have hquotient : Scalar.isFinite (x / y) = (unpack .binary32 (pack .binary32
      (div .binary32 x.toModel.unpack y.toModel.unpack))).isFinite := rfl
  rw [hquotient, hx]
  obtain h | ⟨s, h⟩ := infinity_div y.toModel.unpack
  · rw [h, unpack_pack_notANumber]
    rfl
  · rw [h, unpack_pack_infinity]
    rfl

end Arbor.Machine
