import Arbor.Decimal.Power
import Arbor.Rounding

namespace Arbor.Decimal

structure Figures where
  digits : Nat
  exponent : Int
  deriving DecidableEq, Repr

def digitCount (n : Nat) : Nat :=
  (Nat.toDigits 10 n).length

def leadingExponent (num den : Nat) : Int :=
  if den ≤ num then (digitCount (num / den) : Int) - 1
  else -(digitCount ((den + (num - 1)) / num - 1) : Int)

/-- The positive number `num / den` to `count` digits from its first one on, a half going to the
even neighbour. -/
def significant (count num den : Nat) : Figures :=
  let unit := leadingExponent num den + 1 - (count : Int)
  let digits := roundHalfEven (num * tenPow (-unit).toNat) (den * tenPow unit.toNat)
  if digits = tenPow count then ⟨tenPow (count - 1), unit + 1⟩ else ⟨digits, unit⟩

namespace Figures

def leading (f : Figures) : Int :=
  f.exponent + (digitCount f.digits : Int) - 1

def positional (f : Figures) : List Char :=
  let shown := Nat.toDigits 10 (f.digits * tenPow f.exponent.toNat)
  let places := (-f.exponent).toNat
  let padded := shown.leftpad (places + 1) '0'
  let fraction := padded.drop (padded.length - places)
  padded.take (padded.length - places) ++ '.' :: (if fraction.isEmpty then ['0'] else fraction)

def scientific (f : Figures) : List Char :=
  let exponent := f.leading
  let mantissa := match Nat.toDigits 10 f.digits with
    | first :: second :: rest => first :: '.' :: second :: rest
    | single => single
  mantissa ++ 'e' :: (if exponent < 0 then ['-'] else []) ++ Nat.toDigits 10 exponent.natAbs

end Figures

end Arbor.Decimal
