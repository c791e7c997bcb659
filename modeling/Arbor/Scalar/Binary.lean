import Arbor.Rounding
import Arbor.Scalar.Basic

/-! Machine numbers as scalars. Floors, ceilings and decimals are computed from the exact value
behind the bits, in integers. -/

namespace Arbor

open Decimal (Fixed tenPow)

inductive Binary
  | undefined
  | infinite (negative : Bool)
  | finite (negative : Bool) (mantissa : Nat) (exponent : Int)
  deriving DecidableEq, Repr

namespace Binary

def ofBits (exponentBits fractionBits bits : Nat) : Binary :=
  let negative := bits.testBit (exponentBits + fractionBits)
  let biased := (bits >>> fractionBits) % (1 <<< exponentBits)
  let fraction := bits % (1 <<< fractionBits)
  let unit : Int := 2 - (1 <<< (exponentBits - 1) : Nat) - (fractionBits : Nat)
  if biased = 1 <<< exponentBits - 1 then
    if fraction = 0 then infinite negative else undefined
  else if biased = 0 then finite negative fraction unit
  else finite negative (fraction + 1 <<< fractionBits) (unit + (biased - 1 : Nat))

def numerator (mantissa : Nat) (exponent : Int) : Nat :=
  mantissa <<< exponent.toNat

def denominator (exponent : Int) : Nat :=
  1 <<< (-exponent).toNat

theorem denominator_pos (exponent : Int) : 0 < denominator exponent := by
  rw [denominator, Nat.one_shiftLeft]
  exact Nat.two_pow_pos _

/-- The floor, kept inside the signed 32-bit range. What is no number counts as zero. -/
def floorInt32 : Binary → Int
  | undefined => 0
  | infinite negative => if negative then minInt32 else maxInt32
  | finite negative mantissa exponent =>
    let num : Int := numerator mantissa exponent
    max minInt32 (min maxInt32 ((if negative then -num else num).fdiv (denominator exponent)))

/-- The ceiling, kept inside the unsigned 64-bit range. What is no number counts as zero. -/
def ceilNat : Binary → Nat
  | undefined => 0
  | infinite negative => if negative then 0 else maxNat64
  | finite negative mantissa exponent =>
    let den := denominator exponent
    if negative then 0 else min maxNat64 ((numerator mantissa exponent + (den - 1)) / den)

def toFixed (places : Nat) : Binary → Fixed places
  | undefined => .undefined
  | infinite negative => .infinite negative
  | finite negative mantissa exponent =>
    .finite negative
      (roundHalfEven (numerator mantissa exponent * tenPow places) (denominator exponent))

def ofFloat32 (x : Float32) : Binary := ofBits 8 23 x.toBits.toNat

def ofFloat (x : Float) : Binary := ofBits 11 52 x.toBits.toNat

end Binary

instance : Scalar Float32 where
  natCast := Float32.ofNat
  decLt a b := inferInstanceAs (Decidable (a < b))
  decLe a b := inferInstanceAs (Decidable (a ≤ b))
  sqrt := Float32.sqrt
  isNaN := Float32.isNaN
  isFinite := Float32.isFinite
  floorInt32 x := (Binary.ofFloat32 x).floorInt32
  ceilNat x := (Binary.ofFloat32 x).ceilNat
  toFixed places x := (Binary.ofFloat32 x).toFixed places

instance : Scalar Float where
  natCast := Float.ofNat
  decLt a b := inferInstanceAs (Decidable (a < b))
  decLe a b := inferInstanceAs (Decidable (a ≤ b))
  sqrt := Float.sqrt
  isNaN := Float.isNaN
  isFinite := Float.isFinite
  floorInt32 x := (Binary.ofFloat x).floorInt32
  ceilNat x := (Binary.ofFloat x).ceilNat
  toFixed places x := (Binary.ofFloat x).toFixed places

instance : Trig Float32 where
  sin x := x.toFloat.sin.toFloat32
  cos x := x.toFloat.cos.toFloat32

end Arbor
