import Arbor.Proofs.Scalar.Order

/-! How single-precision numbers are stored: in which form, that those in it are stored as they
are, and that the exact value read off the bits is the value of the number. -/

namespace Arbor.Machine

open Float.Model (Format UnpackedFloat totalExponent)
open Float.Model.UnpackedFloat

theorem totalExponent_eq (m : ℕ) (e : ℤ) : totalExponent m e = m.log2 + 1 + e := rfl

theorem targetExponent_eq (total : ℤ) :
    Format.binary32.targetExponent total = max (total - 24) (-149) := rfl

/-- Whether mantissa and exponent are the ones that a number is stored with: the mantissa has all
the digits that there is room for, or the exponent is the least. -/
def Canonical (m : ℕ) (e : ℤ) : Prop :=
  e = Format.binary32.targetExponent (totalExponent m e)

/-- Single-precision mantissas have 24 digits, fewer at the least exponent only. -/
theorem canonical_iff {m : ℕ} {e : ℤ} :
    Canonical m e ↔ m.log2 ≤ 23 ∧ -149 ≤ e ∧ (m.log2 = 23 ∨ e = -149) := by
  rw [Canonical, targetExponent_eq, totalExponent_eq]
  omega

theorem finite_congr {s s' : Sign} {m m' : ℕ} {e e' : ℤ} {h : 0 < m} {h' : 0 < m'}
    (hs : s = s') (hm : m = m') (he : e = e') :
    UnpackedFloat.finite s m e h = .finite s' m' e' h' := by
  subst hs hm he
  rfl

/-! ### The fields -/

theorem ofBitVec_toBitVec (s : Sign) : Sign.ofBitVec s.toBitVec = s := by
  cases s <;> rfl

/-- A normal number has a leading digit that is not stored. -/
theorem toNat_one_append (fraction : BitVec 23) :
    (1#1 ++ fraction).toNat = 2 ^ 23 + fraction.toNat := by
  rw [BitVec.toNat_append, ← Nat.shiftLeft_add_eq_or_of_lt fraction.isLt]
  rfl

section

variable {bits : BitVec Format.binary32.numBits}

theorem toNat_unpackExponent : (unpackExponent bits).toNat = (bits.toNat >>> 23) % 2 ^ 8 := rfl

theorem toNat_unpackMantissa : (unpackMantissa bits).toNat = bits.toNat % 2 ^ 23 := rfl

theorem toNat_unpackSign : (unpackSign bits).toNat = (bits.toNat >>> 31) % 2 := rfl

theorem testBit_eq_sign :
    bits.toNat.testBit 31 = (Sign.ofBitVec (unpackSign bits) == .negative) := by
  have hbit : bits.toNat.testBit 31 = decide ((unpackSign bits).toNat = 1) := by
    rw [Nat.testBit_eq_decide_div_mod_eq, toNat_unpackSign, Nat.shiftRight_eq_div_pow]
  obtain hpositive | hnegative := BitVec.eq_zero_or_eq_one (unpackSign bits)
  · rw [hbit, hpositive]
    rfl
  · rw [hbit, hnegative]
    rfl

/-! ### What the fields stand for -/

/-- An exponent that is not an end of its range stands for a mantissa with a leading one that is not
stored. -/
theorem unpack_normal (hleast : 0 < (unpackExponent bits).toNat)
    (hspecial : (unpackExponent bits).toNat < 255) :
    unpack .binary32 bits = .finite (Sign.ofBitVec (unpackSign bits))
      (2 ^ 23 + (unpackMantissa bits).toNat) ((unpackExponent bits).toNat - 150)
      (Nat.add_pos_left (Nat.two_pow_pos 23) _) := by
  have hnotSpecial : unpackExponent bits ≠ -1#8 :=
    fun h => hspecial.ne (congrArg BitVec.toNat h)
  have hnotLeast : unpackExponent bits ≠ 0#8 := fun h => hleast.ne' (congrArg BitVec.toNat h)
  exact (if_neg hnotSpecial).trans ((if_neg hnotLeast).trans
    (finite_congr rfl (toNat_one_append _) rfl))

theorem ne_special_of_eq_least (h : unpackExponent bits = 0#8) : unpackExponent bits ≠ -1#8 := by
  rw [h]
  decide

/-- At the least exponent the mantissa is stored as it is. -/
theorem unpack_subnormal (h : (unpackExponent bits).toNat = 0)
    (hpos : 0 < (unpackMantissa bits).toNat) :
    unpack .binary32 bits = .finite (Sign.ofBitVec (unpackSign bits))
      (unpackMantissa bits).toNat (-149) hpos := by
  have hleast : unpackExponent bits = 0#8 := BitVec.eq_of_toNat_eq h
  have hfraction : unpackMantissa bits ≠ 0#23 := fun h => hpos.ne' (congrArg BitVec.toNat h)
  have hexponent : ((unpackExponent bits).toNat : ℤ) - 150 + 1 = -149 := by omega
  exact (if_neg (ne_special_of_eq_least hleast)).trans ((if_pos hleast).trans
    ((dif_neg hfraction).trans (finite_congr rfl rfl hexponent)))

theorem unpack_zero (h : (unpackExponent bits).toNat = 0)
    (hzero : (unpackMantissa bits).toNat = 0) :
    unpack .binary32 bits = .zero (Sign.ofBitVec (unpackSign bits)) := by
  have hleast : unpackExponent bits = 0#8 := BitVec.eq_of_toNat_eq h
  exact (if_neg (ne_special_of_eq_least hleast)).trans ((if_pos hleast).trans
    (dif_pos (BitVec.eq_of_toNat_eq hzero)))

theorem unpack_infinity (h : (unpackExponent bits).toNat = 255)
    (hzero : (unpackMantissa bits).toNat = 0) :
    unpack .binary32 bits = .infinity (Sign.ofBitVec (unpackSign bits)) :=
  (if_pos (BitVec.eq_of_toNat_eq h)).trans (if_pos (BitVec.eq_of_toNat_eq hzero))

/-- At the greatest exponent everything but a zero fraction is no number. -/
theorem unpack_notANumber (h : (unpackExponent bits).toNat = 255)
    (hpos : 0 < (unpackMantissa bits).toNat) : unpack .binary32 bits = .notANumber :=
  (if_pos (BitVec.eq_of_toNat_eq h)).trans
    (if_neg fun hzero => hpos.ne' (congrArg BitVec.toNat hzero))

/-- The fields hold a zero, a subnormal number, an infinity, no number, or a normal number. -/
theorem fields_cases (bits : BitVec Format.binary32.numBits) :
    (unpackExponent bits).toNat = 0 ∧ (unpackMantissa bits).toNat = 0 ∨
      (unpackExponent bits).toNat = 0 ∧ 0 < (unpackMantissa bits).toNat ∨
      (unpackExponent bits).toNat = 255 ∧ (unpackMantissa bits).toNat = 0 ∨
      (unpackExponent bits).toNat = 255 ∧ 0 < (unpackMantissa bits).toNat ∨
      0 < (unpackExponent bits).toNat ∧ (unpackExponent bits).toNat < 255 := by
  have hexponent : (unpackExponent bits).toNat < 2 ^ 8 := (unpackExponent bits).isLt
  omega

/-- What is stored is in canonical form, and neither too large nor too small. -/
theorem canonical_unpack {s : Sign} {m : ℕ} {e : ℤ} {h : 0 < m}
    (hfinite : unpack .binary32 bits = .finite s m e h) :
    Canonical m e ∧ -148 ≤ totalExponent m e ∧ totalExponent m e ≤ 128 := by
  have hfraction : (unpackMantissa bits).toNat < 2 ^ 23 := (unpackMantissa bits).isLt
  rw [canonical_iff, totalExponent_eq]
  obtain ⟨h, hzero⟩ | ⟨h, hpos⟩ | ⟨h, hzero⟩ | ⟨h, hpos⟩ | ⟨hleast, hspecial⟩ := fields_cases bits
  · rw [unpack_zero h hzero] at hfinite
    cases hfinite
  · rw [unpack_subnormal h hpos] at hfinite
    obtain ⟨-, rfl, rfl⟩ := UnpackedFloat.finite.inj hfinite
    have hlog := (Nat.log2_lt hpos.ne').2 hfraction
    omega
  · rw [unpack_infinity h hzero] at hfinite
    cases hfinite
  · rw [unpack_notANumber h hpos] at hfinite
    cases hfinite
  · rw [unpack_normal hleast hspecial] at hfinite
    obtain ⟨-, rfl, rfl⟩ := UnpackedFloat.finite.inj hfinite
    have hlog : (2 ^ 23 + (unpackMantissa bits).toNat).log2 = 23 :=
      (Nat.log2_eq_iff (by omega)).2 (by omega)
    omega

end

/-! ### Storing -/

theorem unpackSign_packComponents (s : Sign) (exponent : BitVec 8) (fraction : BitVec 23) :
    unpackSign (packComponents .binary32 s exponent fraction) = s.toBitVec := by
  have hplace : (unpackSign (packComponents .binary32 s exponent fraction)).toNat =
      ((s.toBitVec ++ exponent ++ fraction).toNat >>> 31) % 2 := toNat_unpackSign
  have hsign : s.toBitVec.toNat < 2 := s.toBitVec.isLt
  have hexponent : exponent.toNat < 2 ^ 8 := exponent.isLt
  have hfraction : fraction.toNat < 2 ^ 23 := fraction.isLt
  apply BitVec.eq_of_toNat_eq
  rw [hplace, BitVec.toNat_append, BitVec.toNat_append,
    ← Nat.shiftLeft_add_eq_or_of_lt fraction.isLt, ← Nat.shiftLeft_add_eq_or_of_lt exponent.isLt,
    Nat.shiftLeft_eq, Nat.shiftLeft_eq, Nat.shiftRight_eq_div_pow]
  omega

theorem ofBitVec_unpackSign (s : Sign) (exponent : BitVec 8) (fraction : BitVec 23) :
    Sign.ofBitVec (unpackSign (packComponents .binary32 s exponent fraction)) = s := by
  rw [unpackSign_packComponents, ofBitVec_toBitVec]

/-- The fields of a number with a full mantissa are read as they were put together. -/
theorem unpack_packComponents_normal (s : Sign) {exponent : BitVec 8} (fraction : BitVec 23)
    (hleast : 0 < exponent.toNat) (hspecial : exponent.toNat < 255) :
    unpack .binary32 (packComponents .binary32 s exponent fraction) =
      .finite s (2 ^ 23 + fraction.toNat) (exponent.toNat - 150)
        (Nat.add_pos_left (Nat.two_pow_pos 23) _) := by
  rw [unpack_normal]
  · refine finite_congr (ofBitVec_unpackSign s exponent fraction) ?_ ?_
    · rw [unpackMantissa_packComponents]
    · rw [unpackExponent_packComponents]
  · rwa [unpackExponent_packComponents]
  · rwa [unpackExponent_packComponents]

/-- The fields of a number at the least exponent are read as they were put together. -/
theorem unpack_packComponents_subnormal (s : Sign) {fraction : BitVec 23}
    (hpos : 0 < fraction.toNat) : unpack .binary32 (packComponents .binary32 s 0#8 fraction) =
      .finite s fraction.toNat (-149) hpos := by
  rw [unpack_subnormal (congrArg BitVec.toNat unpackExponent_packComponents)]
  · refine finite_congr (ofBitVec_unpackSign s 0#8 fraction) ?_ rfl
    rw [unpackMantissa_packComponents]
  · rwa [unpackMantissa_packComponents]

theorem unpack_pack_zero (s : Sign) : unpack .binary32 (pack .binary32 (.zero s)) = .zero s := by
  cases s <;> rfl

theorem unpack_pack_infinity (s : Sign) :
    unpack .binary32 (pack .binary32 (.infinity s)) = .infinity s := by
  cases s <;> rfl

theorem unpack_pack_notANumber :
    unpack .binary32 (pack .binary32 .notANumber) = .notANumber := rfl

/-- A number in canonical form that is not too large is stored as it is. -/
theorem unpack_pack {s : Sign} {m : ℕ} {e : ℤ} (hm : 0 < m) (hcanonical : Canonical m e)
    (htotal : totalExponent m e ≤ 128) :
    unpack .binary32 (pack .binary32 (.finite s m e hm)) = .finite s m e hm := by
  obtain ⟨hdigits, hmin, hform⟩ := canonical_iff.1 hcanonical
  rw [totalExponent_eq] at htotal
  have hpack : pack .binary32 (.finite s m e hm) =
      if 2 ^ 8 ≤ (e + 127 + 23).toNat + 1 then packedInfinity .binary32 s
      else if m.log2 + 1 = 24 then
        packComponents .binary32 s (BitVec.ofNat 8 (e + 127 + 23).toNat) (BitVec.ofNat 23 m)
      else packComponents .binary32 s 0#8 (BitVec.ofNat 23 m) := rfl
  have hfits : ¬2 ^ 8 ≤ (e + 127 + 23).toNat + 1 := by omega
  rw [hpack, if_neg hfits]
  by_cases hnormal : m.log2 = 23
  · -- The leading digit is not stored, so the field has only what is behind it.
    have hfrom : 2 ^ 23 ≤ m := hnormal ▸ Nat.log2_self_le hm.ne'
    have hbelow : m < 2 ^ 24 := (Nat.log2_lt hm.ne').1 (Nat.lt_succ_of_le hdigits)
    have hexponent : (BitVec.ofNat 8 (e + 127 + 23).toNat).toNat = (e + 127 + 23).toNat := by
      rw [BitVec.toNat_ofNat, Nat.mod_eq_of_lt (by omega)]
    have hfraction : (BitVec.ofNat 23 m).toNat = m - 2 ^ 23 := by
      rw [BitVec.toNat_ofNat, Nat.mod_eq_sub_mod hfrom, Nat.mod_eq_of_lt (by omega)]
    rw [if_pos (by omega), unpack_packComponents_normal s _ (by omega) (by omega)]
    exact finite_congr rfl (by omega) (by omega)
  · have hbelow : m < 2 ^ 23 := (Nat.log2_lt hm.ne').1 (by omega)
    have hfraction : (BitVec.ofNat 23 m).toNat = m := by
      rw [BitVec.toNat_ofNat, Nat.mod_eq_of_lt hbelow]
    rw [if_neg (by omega), unpack_packComponents_subnormal s (hm.trans_eq hfraction.symm)]
    exact finite_congr rfl hfraction (by omega)

/-! ### Exact values -/

def exactValue : UnpackedFloat → Binary
  | .notANumber => .undefined
  | .infinity s => .infinite (s == .negative)
  | .zero s => .finite (s == .negative) 0 (-149)
  | .finite s m e _ => .finite (s == .negative) m e

/-- Reading the bits of a number by hand gives the value that the library's model of it has. -/
theorem ofBits_eq (bits : BitVec Format.binary32.numBits) :
    Binary.ofBits 8 23 bits.toNat = exactValue (unpack .binary32 bits) := by
  have hfields : Binary.ofBits 8 23 bits.toNat =
      if (unpackExponent bits).toNat = 255 then
        if (unpackMantissa bits).toNat = 0 then
          .infinite (Sign.ofBitVec (unpackSign bits) == .negative)
        else .undefined
      else if (unpackExponent bits).toNat = 0 then
        .finite (Sign.ofBitVec (unpackSign bits) == .negative) (unpackMantissa bits).toNat (-149)
      else
        .finite (Sign.ofBitVec (unpackSign bits) == .negative)
          ((unpackMantissa bits).toNat + 1 <<< 23)
          (-149 + ((unpackExponent bits).toNat - 1 : ℕ)) := by
    rw [← testBit_eq_sign, toNat_unpackExponent, toNat_unpackMantissa]
    rfl
  rw [hfields]
  obtain ⟨h, hzero⟩ | ⟨h, hpos⟩ | ⟨h, hzero⟩ | ⟨h, hpos⟩ | ⟨hleast, hspecial⟩ := fields_cases bits
  · rw [unpack_zero h hzero, h, hzero]
    rfl
  · rw [unpack_subnormal h hpos, h]
    rfl
  · rw [unpack_infinity h hzero, h, hzero]
    rfl
  · rw [unpack_notANumber h hpos, if_pos h, if_neg hpos.ne']
    rfl
  · have hmantissa : (unpackMantissa bits).toNat + 1 <<< 23 =
        2 ^ 23 + (unpackMantissa bits).toNat := Nat.add_comm _ _
    have hplace : (-149 + ((unpackExponent bits).toNat - 1 : ℕ) : ℤ) =
        (unpackExponent bits).toNat - 150 := by omega
    rw [unpack_normal hleast hspecial, if_neg hspecial.ne, if_neg hleast.ne', hmantissa, hplace]
    rfl

theorem ofFloat32_eq (x : Float32) : Binary.ofFloat32 x = exactValue x.toModel.unpack :=
  ofBits_eq x.toModel.toBits.toBitVec

example : Binary.ofFloat32 (-0.1) = .finite true 13421773 (-27) := by decide +kernel

end Arbor.Machine
