import Arbor.Decimal.Fixed

/-! The numbers of the geometry. Definitions ask for operations alone, so that the same ones run on
machine numbers and can be reasoned about over the reals; laws belong to the statements that need
them. Constants are decimal literals, which every scalar type reads in its own way. -/

namespace Arbor

open Decimal (Fixed)

def minInt32 : Int := -2147483648

def maxInt32 : Int := 2147483647

def maxNat32 : Nat := 4294967295

def maxNat64 : Nat := 18446744073709551615

/-- What the geometry needs of its numbers: the operations, no laws. Machine numbers and exact
numbers are both instances, so one definition serves a run and a statement about exact
arithmetic. -/
class Scalar (α : Type) extends
    Add α, Sub α, Mul α, Div α, Neg α, LT α, LE α, NatCast α, OfScientific α where
  decLt (a b : α) : Decidable (a < b)
  decLe (a b : α) : Decidable (a ≤ b)
  sqrt : α → α
  /-- Whether the value stands for no number. -/
  isNaN : α → Bool
  isFinite : α → Bool
  /-- The greatest integer below, kept inside the signed 32-bit range. -/
  floorInt32 : α → Int
  /-- The least natural number above, zero below zero. -/
  ceilNat : α → Nat
  /-- The nearest value with the given count of decimal places. -/
  toFixed (places : Nat) : α → Fixed places

class Trig (α : Type) where
  sin : α → α
  cos : α → α

namespace Scalar

variable {α : Type} [Scalar α]

instance (a b : α) : Decidable (a < b) := decLt a b

instance (a b : α) : Decidable (a ≤ b) := decLe a b

/-- The larger of two numbers, or the other one where one is no number. -/
def maxNum (a b : α) : α :=
  if a < b ∨ isNaN a then b else a

def clamp (x lo hi : α) : α :=
  if x < lo then lo else if hi < x then hi else x

def magnitude (x : α) : α :=
  if x < 0.0 then -x else x

def radians (degrees : α) : α :=
  degrees * 0.017453292519943295

end Scalar

end Arbor
