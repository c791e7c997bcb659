import Mathlib.Algebra.Order.Floor.Div
import Mathlib.Data.Set.Card
import Mathlib.Order.Interval.Finset.Nat
import Arbor.Proofs.Generator.Draws

/-! Picking is fair. With an exact product the words that stand for a place are an interval, the
intervals of all places follow each other without a gap, and no two of them differ in length by more
than one word. -/

namespace Arbor.Generator

def roundedShare (round : Nat → Nat) (count : Nat) (word : UInt32) : Nat :=
  min (round (word.toNat * round count) / range) (count - 1)

/-- The place that a word stands for: the whole part of the product, with no limit set to it. -/
def exactShare (count : Nat) (word : UInt32) : Nat :=
  word.toNat * count / range

/-- What the program computes is the share with 53 leading bits. -/
theorem share_eq_roundedShare (count : Nat) : share count = roundedShare (roundToBits 53) count := rfl

theorem range_pos : 0 < range := by
  unfold range
  omega

theorem exactShare_lt {count : Nat} (h : 0 < count) (word : UInt32) :
    exactShare count word < count := by
  have hword : word.toNat < range := word.toNat_lt
  apply Nat.div_lt_of_lt_mul
  exact Nat.mul_lt_mul_of_pos_right hword h

/-- Where nothing is rounded the limit is never reached. -/
theorem roundedShare_id {count : Nat} (h : 0 < count) : roundedShare id count = exactShare count := by
  funext word
  have hlt := exactShare_lt h word
  change min (exactShare count word) (count - 1) = exactShare count word
  omega

/-- Up to 21 bits of count, the product with a word has no more than 53 bits, and nothing is
rounded. -/
theorem share_eq_exactShare {count : Nat} (hpos : 0 < count) (hle : count ≤ 2097152) :
    share count = exactShare count := by
  rw [← roundedShare_id hpos]
  funext word
  exact share_of_le hle word

theorem exactShare_mono (count : Nat) {word word' : UInt32} (h : word ≤ word') :
    exactShare count word ≤ exactShare count word' := by
  have hle : word.toNat ≤ word'.toNat := UInt32.le_iff_toNat_le.1 h
  apply Nat.div_le_div_right
  exact Nat.mul_le_mul_right count hle

def firstWord (count place : Nat) : Nat :=
  place * range ⌈/⌉ count

/-- A word has reached a place when its share of the count has. -/
theorem firstWord_le_iff {count : Nat} (h : 0 < count) {place word : Nat} :
    firstWord count place ≤ word ↔ place * range ≤ word * count := by
  rw [firstWord, ceilDiv_le_iff_le_mul h, Nat.mul_comm count]

/-- Behind the last place no words are left. -/
theorem firstWord_count {count : Nat} (h : 0 < count) : firstWord count count = range := by
  apply Nat.le_antisymm
  · rw [firstWord_le_iff h, Nat.mul_comm]
  · have hle := (firstWord_le_iff h).1 (Nat.le_refl (firstWord count count))
    rw [Nat.mul_comm] at hle
    exact Nat.le_of_mul_le_mul_right hle h

theorem firstWord_mono {count : Nat} (h : 0 < count) : Monotone (firstWord count) := by
  intro place place' hle
  rw [firstWord_le_iff h]
  calc place * range ≤ place' * range := Nat.mul_le_mul_right range hle
    _ ≤ firstWord count place' * count := (firstWord_le_iff h).1 (Nat.le_refl _)

/-- The words that stand for a place are an interval. -/
theorem exactShare_eq_iff {count : Nat} (h : 0 < count) {place : Nat} {word : UInt32} :
    exactShare count word = place ↔
      firstWord count place ≤ word.toNat ∧ word.toNat < firstWord count (place + 1) := by
  rw [exactShare, Nat.div_eq_iff range_pos, firstWord_le_iff h, ← Nat.not_le, firstWord_le_iff h,
    Nat.succ_mul]
  have hpos := range_pos
  omega

theorem ncard_toNat_Ico {low high : Nat} (h : high ≤ range) :
    {word : UInt32 | low ≤ word.toNat ∧ word.toNat < high}.ncard = high - low := by
  have himage : UInt32.toNat '' {word : UInt32 | low ≤ word.toNat ∧ word.toNat < high} =
      (Finset.Ico low high : Set Nat) := by
    ext n
    rw [Finset.coe_Ico, Set.mem_Ico]
    constructor
    · rintro ⟨word, hword, rfl⟩
      exact hword
    · intro hn
      -- Every number in the range is that of a word.
      have hlt : n < UInt32.size := Nat.lt_of_lt_of_le hn.2 h
      have hword : (UInt32.ofNat n).toNat = n := UInt32.toNat_ofNat_of_lt' hlt
      refine ⟨UInt32.ofNat n, ?_, hword⟩
      rwa [Set.mem_ofPred_eq, hword]
  have hinjective : Function.Injective UInt32.toNat := fun _ _ => UInt32.toNat_inj.1
  rw [← Set.ncard_image_of_injective _ hinjective, himage, Set.ncard_coe_finset, Nat.card_Ico]

/-- The words of a place are those from its first one up to the first of the next. -/
theorem ncard_exactShare_eq {count place : Nat} (h : place < count) :
    {word | exactShare count word = place}.ncard =
      firstWord count (place + 1) - firstWord count place := by
  have hpos : 0 < count := Nat.zero_lt_of_lt h
  have hlast : firstWord count (place + 1) ≤ range := by
    rw [← firstWord_count hpos]
    exact firstWord_mono hpos h
  simp only [exactShare_eq_iff hpos]
  exact ncard_toNat_Ico hlast

/-- Rounding the ends of an interval up makes of its length the floor or the ceiling. -/
theorem ceilDiv_add_sub_ceilDiv (start length : Nat) {parts : Nat} (h : 0 < parts) :
    (start + length) ⌈/⌉ parts - start ⌈/⌉ parts = length / parts ∨
      (start + length) ⌈/⌉ parts - start ⌈/⌉ parts = length ⌈/⌉ parts := by
  have hstart : start ≤ parts * (start ⌈/⌉ parts) := le_smul_ceilDiv h
  have hlength : length ≤ parts * (length ⌈/⌉ parts) := le_smul_ceilDiv h
  have hboth : start + length ≤ parts * ((start + length) ⌈/⌉ parts) := le_smul_ceilDiv h
  have hfloor : parts * (length / parts) ≤ length := Nat.mul_div_le length parts
  have hupper : (start + length) ⌈/⌉ parts ≤ start ⌈/⌉ parts + length ⌈/⌉ parts := by
    rw [ceilDiv_le_iff_le_mul h, Nat.mul_add]
    omega
  have hlower : start ⌈/⌉ parts ≤ (start + length) ⌈/⌉ parts - length / parts := by
    rw [ceilDiv_le_iff_le_mul h, Nat.mul_sub]
    omega
  have hclose : length ⌈/⌉ parts ≤ length / parts + 1 := by
    rw [ceilDiv_le_iff_le_mul h]
    exact (Nat.lt_mul_div_succ length h).le
  -- The difference is between the floor and the ceiling, which are one apart at most.
  have hle : length / parts ≤ (start + length) ⌈/⌉ parts := by
    apply Nat.le_of_mul_le_mul_left _ h
    omega
  omega

/-- With an exact product picking goes up with the word and never past the last place, so that the
limit is not needed, and of all words every place is given the same number, up to one word for the
remainder. Up to 2097152 places the product is exact. -/
theorem share_isFair {count : Nat} (h : 0 < count) :
    roundedShare id count = exactShare count ∧
    (∀ word word', word ≤ word' → exactShare count word ≤ exactShare count word') ∧
    (∀ word, exactShare count word < count) ∧
    (∀ place < count,
      {word | exactShare count word = place}.ncard = range / count ∨
        {word | exactShare count word = place}.ncard = range ⌈/⌉ count) ∧
    (count ≤ 2097152 → ∀ gen : Generator,
      gen.pick count = some (exactShare count gen.next.1, gen.advance)) := by
  refine ⟨roundedShare_id h, fun _ _ => exactShare_mono count, exactShare_lt h, ?_, ?_⟩
  · intro place hplace
    rw [ncard_exactShare_eq hplace, firstWord, firstWord, Nat.succ_mul]
    exact ceilDiv_add_sub_ceilDiv (place * range) range h
  · intro hle gen
    rw [pick_of_ne_zero gen (Nat.ne_of_gt h), share_eq_exactShare h hle]

/-- Three places do not divide the words evenly, so that one of them has a word more. -/
theorem three_isFair :
    (0 < 3 ∧ 1 < 3 ∧ 3 ≤ 2097152) ∧
    ({word | exactShare 3 word = 1}.ncard = 1431655765 ∨
      {word | exactShare 3 word = 1}.ncard = 1431655766) ∧
    (⟨42⟩ : Generator).pick 3 = some (1, ⟨1831565855⟩) := by
  obtain ⟨-, -, -, hcount, hpick⟩ := share_isFair (by decide : 0 < 3)
  have hfloor : range / 3 = 1431655765 := by decide
  have hceil : range ⌈/⌉ 3 = 1431655766 := by decide
  have hplace : exactShare 3 (⟨42⟩ : Generator).next.1 = 1 := by decide
  have hthird := hcount 1 (by decide)
  have hdrawn := hpick (by decide) ⟨42⟩
  rw [hfloor, hceil] at hthird
  rw [hplace] at hdrawn
  exact ⟨by decide, hthird, hdrawn⟩

end Arbor.Generator
