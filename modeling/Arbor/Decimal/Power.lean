namespace Arbor.Decimal

def tenPow (exponent : Nat) : Nat :=
  Nat.pow 10 exponent

theorem tenPow_zero : tenPow 0 = 1 := rfl

theorem tenPow_succ (n : Nat) : tenPow (n + 1) = tenPow n * 10 := rfl

theorem tenPow_pos (n : Nat) : 0 < tenPow n :=
  Nat.pow_pos (by decide)

end Arbor.Decimal
