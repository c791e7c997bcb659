import Mathlib.Algebra.BigOperators.Fin
import Mathlib.Data.Int.ModEq
import Mathlib.Tactic.Ring
import Arbor.FileTree.Seed

/-! The hash of a path. It is a polynomial of the 16-bit units of the path, so that the hash of a
longer path follows from those of its parts. Signed and unsigned words give the same hash, and its
size reaches one more than the largest signed word. -/

namespace Arbor

/-! ### Units -/

/-- The 16-bit units of a character. One beyond the first plane has ten of its bits in a high
surrogate and ten in a low one. -/
inductive EncodesChar : Char → List UInt32 → Prop
  | plain {c : Char} (h : c.toNat < 0x10000) : EncodesChar c [c.val]
  | surrogates {c : Char} {high low : UInt32} (hhigh : 0xd800 ≤ high.toNat ∧ high.toNat < 0xdc00)
      (hlow : 0xdc00 ≤ low.toNat ∧ low.toNat < 0xe000)
      (h : c.toNat = 0x10000 + (high.toNat - 0xd800) * 0x400 + (low.toNat - 0xdc00)) :
      EncodesChar c [high, low]

inductive Encodes : List Char → List UInt32 → Prop
  | nil : Encodes [] []
  | cons {c : Char} {text : List Char} {first others : List UInt32} (hfirst : EncodesChar c first)
      (hothers : Encodes text others) : Encodes (c :: text) (first ++ others)

/-- A character of the first plane is a single unit. -/
theorem units16_of_lt {c : Char} (h : c.toNat < 0x10000) : units16 c = [c.val] := by
  have hplain : c.val < 0x10000 := UInt32.lt_iff_toNat_lt.2 h
  exact if_pos hplain

/-- A character beyond the first plane is a pair of surrogates. -/
theorem units16_of_le {c : Char} (h : 0x10000 ≤ c.toNat) :
    ∃ high low, units16 c = [high, low] ∧
      high.toNat = 0xd800 + (c.toNat - 0x10000) / 0x400 ∧
      low.toNat = 0xdc00 + (c.toNat - 0x10000) % 0x400 := by
  have hbeyond : (0x10000 : UInt32) ≤ c.val := UInt32.le_iff_toNat_le.2 h
  have hoffset : (c.val - 0x10000).toNat = c.toNat - 0x10000 :=
    UInt32.toNat_sub_of_le _ _ hbeyond
  have hlast : c.toNat < 2 ^ 32 := c.val.toNat_lt
  refine ⟨_, _, if_neg (UInt32.not_lt.2 hbeyond), ?_, ?_⟩
  · rw [UInt32.toNat_add, UInt32.toNat_div, hoffset]
    change (0xd800 + (c.toNat - 0x10000) / 0x400) % 2 ^ 32 = _
    omega
  · rw [UInt32.toNat_add, UInt32.toNat_mod, hoffset]
    change (0xdc00 + (c.toNat - 0x10000) % 0x400) % 2 ^ 32 = _
    omega

theorem encodesChar_units16 (c : Char) : EncodesChar c (units16 c) := by
  rcases Nat.lt_or_ge c.toNat 0x10000 with hplain | hbeyond
  · rw [units16_of_lt hplain]
    exact EncodesChar.plain hplain
  · obtain ⟨high, low, hunits, hhigh, hlow⟩ := units16_of_le hbeyond
    have hlast : c.toNat < 0x110000 := by
      have hvalid : c.toNat.isValidChar := c.valid
      rcases hvalid with hlt | ⟨-, hlt⟩ <;> omega
    rw [hunits]
    apply EncodesChar.surrogates <;> omega

/-- The encoding of a character is determined, and it is the one that is hashed. -/
theorem encodesChar_iff {c : Char} {units : List UInt32} :
    EncodesChar c units ↔ units = units16 c := by
  constructor
  · intro h
    cases h with
    | plain h => rw [units16_of_lt h]
    | @surrogates high low hhigh hlow h =>
      have hbeyond : 0x10000 ≤ c.toNat := by omega
      obtain ⟨high', low', hunits, hhigh', hlow'⟩ := units16_of_le hbeyond
      -- Both pairs hold the same twenty bits, each half in its own range.
      have hsameHigh : high = high' := UInt32.toNat_inj.1 (by omega)
      have hsameLow : low = low' := UInt32.toNat_inj.1 (by omega)
      rw [hunits, hsameHigh, hsameLow]
  · rintro rfl
    exact encodesChar_units16 c

/-- The encoding of a text is determined, and it is the one that is hashed. -/
theorem encodes_iff {text : List Char} {units : List UInt32} :
    Encodes text units ↔ units = text.flatMap units16 := by
  constructor
  · intro h
    induction h with
    | nil => rfl
    | cons hfirst hothers ih => rw [encodesChar_iff.1 hfirst, ih, List.flatMap_cons]
  · rintro rfl
    induction text with
    | nil => exact Encodes.nil
    | cons c text ih => exact Encodes.cons (encodesChar_units16 c) ih

/-! ### Rounds -/

def unitPolynomial (units : List UInt32) : ℕ :=
  ∑ i : Fin units.length, units[i].toNat * 31 ^ (units.length - 1 - i)

theorem unitPolynomial_cons (unit : UInt32) (units : List UInt32) :
    unitPolynomial (unit :: units) = unit.toNat * 31 ^ units.length + unitPolynomial units := by
  unfold unitPolynomial
  refine (Fin.sum_univ_succ _).trans ?_
  congr 1
  apply Finset.sum_congr rfl
  intro i _
  have hdegree : (unit :: units).length - 1 - i.succ = units.length - 1 - i := by
    rw [List.length_cons, Fin.val_succ]
    omega
  exact congrArg (units[i].toNat * 31 ^ ·) hdegree

/-- Each unit shifts what came before it one power of 31 up, so the rounds evaluate a polynomial. -/
theorem toNat_foldl_hashUnit (hash : UInt32) (units : List UInt32) :
    (units.foldl hashUnit hash).toNat ≡
      hash.toNat * 31 ^ units.length + unitPolynomial units [MOD 2 ^ 32] := by
  induction units generalizing hash with
  | nil =>
    have hempty : hash.toNat * 31 ^ ([] : List UInt32).length + unitPolynomial [] = hash.toNat :=
      Nat.mul_one hash.toNat
    rw [hempty]
    rfl
  | cons unit units ih =>
    have hround : (hashUnit hash unit).toNat ≡ hash.toNat * 31 + unit.toNat [MOD 2 ^ 32] := by
      rw [hashUnit, UInt32.toNat_add, UInt32.toNat_mul]
      exact (Nat.mod_modEq _ _).trans ((Nat.mod_modEq _ _).add_right _)
    calc ((unit :: units).foldl hashUnit hash).toNat
        ≡ (hashUnit hash unit).toNat * 31 ^ units.length + unitPolynomial units [MOD 2 ^ 32] :=
          ih (hashUnit hash unit)
      _ ≡ (hash.toNat * 31 + unit.toNat) * 31 ^ units.length + unitPolynomial units
          [MOD 2 ^ 32] := (hround.mul_right _).add_right _
      _ = hash.toNat * 31 ^ (unit :: units).length + unitPolynomial (unit :: units) := by
        rw [unitPolynomial_cons, List.length_cons]
        ring

def signedHashUnit (hash : Int32) (unit : UInt32) : Int32 :=
  (hash <<< 5) - hash + unit.toInt32

/-- A shift by five places less the word itself is a product with 31, also where it overflows. -/
theorem shiftLeft_sub (hash : Int32) : (hash <<< 5) - hash = hash * 31 := by
  have hshift : hash <<< 5 = hash * 32 := by
    apply Int32.toBitVec_inj.1
    rw [Int32.toBitVec_shiftLeft, Int32.toBitVec_mul]
    exact BitVec.shiftLeft_eq_mul_twoPow hash.toBitVec 5
  calc (hash <<< 5) - hash = hash * 32 - hash * 1 := by rw [hshift, Int32.mul_one]
    _ = hash * 31 := by rw [← Int32.mul_sub]; rfl

/-- A round gives the same bits whether the words have signs or not. -/
theorem toInt32_hashUnit (hash unit : UInt32) :
    (hashUnit hash unit).toInt32 = signedHashUnit hash.toInt32 unit := by
  rw [hashUnit, signedHashUnit, shiftLeft_sub, UInt32.toInt32_add, UInt32.toInt32_mul]
  rfl

def signedHash (text : List Char) : Int32 :=
  (text.flatMap units16).foldl signedHashUnit 0

/-- The hash gives the same bits whether the words have signs or not. -/
theorem toInt32_unitHash (text : List Char) : (unitHash text).toInt32 = signedHash text :=
  List.foldl_hom UInt32.toInt32 (fun hash unit => (toInt32_hashUnit hash unit).symm) |>.symm

theorem toInt_toInt32 (word : UInt32) : word.toInt32.toInt = (word.toNat : ℤ).bmod (2 ^ 32) := by
  rw [← Int32.toInt_toBitVec, UInt32.toBitVec_toInt32, BitVec.toInt_eq_toNat_bmod]
  rfl

/-- The absolute value of the least word does not fit a signed word, and is taken without a sign. -/
theorem toNat_signedSize (word : UInt32) :
    (signedSize word).toNat = word.toInt32.toInt.natAbs := by
  have hlt : word.toNat < 2 ^ 32 := word.toNat_lt
  have hsign : word < 0x80000000 ↔ word.toNat < 2 ^ 31 := UInt32.lt_iff_toNat_lt
  rw [toInt_toInt32, Int.bmod_def, signedSize]
  split
  case isTrue hpositive =>
    have hsmall := hsign.1 hpositive
    rw [if_pos (by omega)]
    omega
  case isFalse hnegative =>
    have hlarge := hsign.not.1 hnegative
    rw [if_neg (by omega), UInt32.toNat_sub]
    -- A negative word is taken from zero, which wraps around.
    change (2 ^ 32 - word.toNat + 0) % 2 ^ 32 = _
    omega

theorem toNat_signedSize_le (word : UInt32) : (signedSize word).toNat ≤ 2 ^ 31 := by
  have hlower := Int32.le_toInt word.toInt32
  have hupper := Int32.toInt_lt word.toInt32
  rw [toNat_signedSize]
  omega

/-! ### Paths -/

/-- A text in front is shifted up by a power of 31 for each unit behind it. -/
theorem unitHash_append (text text' : List Char) :
    unitHash (text ++ text') =
      unitHash text * 31 ^ (text'.flatMap units16).length + unitHash text' := by
  rw [unitHash, List.flatMap_append, List.foldl_append, foldl_hashUnit]
  rfl

theorem toInt_signedHash (text : List Char) :
    (signedHash text).toInt = (unitPolynomial (text.flatMap units16) : ℤ).bmod (2 ^ 32) := by
  have hfold := toNat_foldl_hashUnit 0 (text.flatMap units16)
  rw [UInt32.toNat_zero, Nat.zero_mul, Nat.zero_add] at hfold
  have hrest := Int.natCast_modEq_iff.2 hfold
  calc (signedHash text).toInt
      = ((unitHash text).toNat : ℤ).bmod (2 ^ 32) := by rw [← toInt32_unitHash, toInt_toInt32]
    _ = ((unitHash text).toNat % (2 ^ 32 : ℕ) : ℤ).bmod (2 ^ 32) := (Int.emod_bmod _ _).symm
    _ = (unitPolynomial (text.flatMap units16) % (2 ^ 32 : ℕ) : ℤ).bmod (2 ^ 32) :=
      congrArg (Int.bmod · (2 ^ 32)) hrest
    _ = (unitPolynomial (text.flatMap units16) : ℤ).bmod (2 ^ 32) := Int.emod_bmod _ _

/-- The hash of a path is the size, as a signed word, of the polynomial of its units. It is the same
from unsigned rounds as from signed ones, and the hash of a longer path is made of those of its
parts before the size is taken. -/
theorem pathHash_isPolynomial {path : String} {units : List UInt32}
    (h : Encodes path.toList units) :
    (unitHash path.toList).toInt32 = signedHash path.toList ∧
    (signedHash path.toList).toInt = (unitPolynomial units : ℤ).bmod (2 ^ 32) ∧
    (pathHash path).toNat = ((unitPolynomial units : ℤ).bmod (2 ^ 32)).natAbs ∧
    (pathHash path).toNat ≤ 2 ^ 31 ∧
    ∀ (path' : String) (units' : List UInt32), Encodes path'.toList units' →
      unitHash (path ++ path').toList =
        unitHash path.toList * 31 ^ units'.length + unitHash path'.toList := by
  obtain rfl := encodes_iff.1 h
  refine ⟨toInt32_unitHash _, toInt_signedHash _, ?_, toNat_signedSize_le _, ?_⟩
  · rw [pathHash, toNat_signedSize, toInt32_unitHash, toInt_signedHash]
  · intro path' units' h'
    obtain rfl := encodes_iff.1 h'
    rw [String.toList_append, unitHash_append]

/-- A path with a surrogate pair whose signed hash is the least word, which has no positive
counterpart among the signed words. -/
theorem least_pathHash_isPolynomial :
    Encodes "a/😀krmyhvr".toList [97, 47, 0xd83d, 0xde00, 107, 114, 109, 121, 104, 118, 114] ∧
    Encodes "/é".toList [47, 0xe9] ∧
    signedHash "a/😀krmyhvr".toList = -0x80000000 ∧
    pathHash "a/😀krmyhvr" = 0x80000000 ∧
    unitHash ("a/😀krmyhvr" ++ "/é").toList = 0x8000069a := by
  have hlong : Encodes "a/😀krmyhvr".toList
      [97, 47, 0xd83d, 0xde00, 107, 114, 109, 121, 104, 118, 114] := encodes_iff.2 (by decide)
  have hshort : Encodes "/é".toList [47, 0xe9] := encodes_iff.2 (by decide)
  obtain ⟨hsigned, -, hsize, -, happend⟩ := pathHash_isPolynomial hlong
  have hleast : (unitPolynomial [97, 47, 0xd83d, 0xde00, 107, 114, 109, 121, 104, 118, 114] :
      ℤ).bmod (2 ^ 32) = -0x80000000 := by decide +kernel
  refine ⟨hlong, hshort, ?_, ?_, ?_⟩
  · rw [← hsigned]
    decide
  · rw [hleast] at hsize
    exact UInt32.toNat_inj.1 hsize
  · rw [happend "/é" _ hshort]
    decide

end Arbor
