import Arbor.Rounding
import Arbor.Scalar.Basic

/-! A seeded stream of pseudo-random words. Picking a place from a list is done in integers and
needs no rounding up to 2097152 places. -/

namespace Arbor

/-- A seeded stream of 32-bit words. The state walks round all of them in equal steps, and each
word given out is a mix of the state's bits. -/
structure Generator where
  state : UInt32
  deriving DecidableEq, Repr

namespace Generator

def range : Nat := 4294967296

def stride : UInt32 := 0x6d2b79f5

def mix (s : UInt32) : UInt32 :=
  let t := (s ^^^ (s >>> 15)) * (1 ||| s)
  let t := (t + (t ^^^ (t >>> 7)) * (61 ||| t)) ^^^ t
  t ^^^ (t >>> 14)

def advance (g : Generator) : Generator :=
  ⟨g.state + stride⟩

def next (g : Generator) : UInt32 × Generator :=
  (mix g.advance.state, g.advance)

def unit (g : Generator) (α : Type) [Scalar α] : α × Generator :=
  ((g.next.1.toNat : α) / (range : α), g.advance)

/-- The place in a list of `count` things that a raw word stands for: the part of the
count that the word is of `range`, computed with 53 leading bits. -/
def share (count : Nat) (word : UInt32) : Nat :=
  min (roundToBits 53 (word.toNat * roundToBits 53 count) / range) (count - 1)

def pick (g : Generator) (count : Nat) : Option (Nat × Generator) :=
  if count = 0 then none else some (share count g.next.1, g.advance)

theorem share_lt {count : Nat} (h : count ≠ 0) (word : UInt32) : share count word < count := by
  unfold share; omega

/-- Up to 2097152 places the share is exact. -/
theorem share_of_le {count : Nat} (h : count ≤ 2097152) (word : UInt32) :
    share count word = min (word.toNat * count / range) (count - 1) := by
  have hw : word.toNat < 4294967296 := word.toNat_lt
  have hp : word.toNat * count < 9007199254740992 := by
    calc word.toNat * count ≤ word.toNat * 2097152 := Nat.mul_le_mul_left _ h
      _ < 9007199254740992 := by omega
  have hlog : ∀ n < 9007199254740992, n.log2 < 53 := by
    intro n hn
    rcases Nat.eq_zero_or_pos n with rfl | hpos
    · decide
    · exact (Nat.log2_lt (Nat.ne_of_gt hpos)).2 hn
  rw [share, roundToBits_of_log2_lt (hlog count (by omega)), roundToBits_of_log2_lt (hlog _ hp)]

end Generator

end Arbor
