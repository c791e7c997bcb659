import Arbor.Decimal.Figures

/-! The fewest decimal digits that read back as the same binary number. A decimal reads back if it
lies in the interval of numbers that round to it, and on a grid of decimals only the two neighbours
of the exact value need a test. -/

namespace Arbor.Decimal

structure Interval where
  low : Nat
  value : Nat
  high : Nat
  den : Nat
  closed : Bool

namespace Interval

/-- The numbers that round to `mantissa * 2 ^ exponent` in a format whose full mantissas have
`fractionBits` bits after the first. Below a power of two the next number is half as far. -/
def ofBinary (fractionBits mantissa : Nat) (exponent : Int) (least : Bool) : Interval :=
  let up := 1 <<< exponent.toNat
  let below := if mantissa = 1 <<< fractionBits ∧ ¬least then 1 else 2
  { low := (4 * mantissa - below) * up
    value := 4 * mantissa * up
    high := (4 * mantissa + 2) * up
    den := 4 <<< (-exponent).toNat
    closed := mantissa % 2 = 0 }

def holds (i : Interval) (f : Figures) : Bool :=
  let num := f.digits * tenPow f.exponent.toNat * i.den
  let scale := tenPow (-f.exponent).toNat
  if i.closed then i.low * scale ≤ num ∧ num ≤ i.high * scale
  else i.low * scale < num ∧ num < i.high * scale

/-- The decimal of `count` digits in the range that is nearest to its value, if there is one. Of
two equally near ones it is the larger. -/
def nearest? (i : Interval) (count : Nat) : Option Figures :=
  let unit := leadingExponent i.value i.den + 1 - (count : Int)
  let num := i.value * tenPow (-unit).toNat
  let den := i.den * tenPow unit.toNat
  let down : Figures := ⟨num / den, unit⟩
  let up : Figures :=
    if num / den + 1 = tenPow count then ⟨tenPow (count - 1), unit + 1⟩
    else ⟨num / den + 1, unit⟩
  if i.holds up ∧ (den ≤ 2 * (num % den) ∨ ¬i.holds down) then some up
  else if i.holds down then some down
  else none

def shortest? (i : Interval) (most : Nat) : Option Figures :=
  (List.range most).findSome? fun n => i.nearest? (n + 1)

end Interval

end Arbor.Decimal
