import Arbor.Decimal.Power

namespace Arbor.Decimal

/-- A number cut to a fixed count of decimal places. A finite one is a whole number of units of
the last place, with a sign that also a zero keeps. -/
inductive Fixed (places : Nat)
  | undefined
  | infinite (negative : Bool)
  | finite (negative : Bool) (units : Nat)
  deriving DecidableEq, Repr

namespace Fixed

variable {places : Nat}

def signText (negative : Bool) : List Char :=
  if negative then ['-'] else []

def fractionText (places units : Nat) : List Char :=
  (Nat.toDigits 10 (units % tenPow places)).leftpad places '0'

def text : Fixed places → List Char
  | undefined => ['N', 'a', 'N']
  | infinite negative => signText negative ++ ['i', 'n', 'f']
  | finite negative units =>
    signText negative ++ Nat.toDigits 10 (units / tenPow places) ++ '.' :: fractionText places units

end Fixed

end Arbor.Decimal
