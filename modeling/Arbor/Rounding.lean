namespace Arbor

/-- The quotient `num / den` rounded to the nearest natural number; a half goes to the even
neighbour. -/
def roundHalfEven (num den : Nat) : Nat :=
  if 2 * (num % den) < den then num / den
  else if den < 2 * (num % den) then num / den + 1
  else num / den + num / den % 2

/-- A quotient without a remainder is not rounded. -/
theorem roundHalfEven_exact (n : Nat) {den : Nat} (h : 0 < den) :
    roundHalfEven (n * den) den = n := by
  simp [roundHalfEven, Nat.mul_div_cancel _ h, h]

/-- Rounding moves a quotient by at most half a unit. -/
theorem two_mul_roundHalfEven (num : Nat) {den : Nat} (h : 0 < den) :
    2 * (roundHalfEven num den * den) ≤ 2 * num + den ∧
      2 * num ≤ 2 * (roundHalfEven num den * den) + den := by
  have hdiv := Nat.div_add_mod num den
  rw [Nat.mul_comm] at hdiv
  have hlt := Nat.mod_lt num h
  have hsucc : (num / den + 1) * den = num / den * den + den := Nat.succ_mul _ _
  unfold roundHalfEven
  split
  · constructor <;> omega
  split
  · rw [hsucc]; constructor <;> omega
  · -- An exact half is as far from one neighbour as from the other.
    rcases Nat.mod_two_eq_zero_or_one (num / den) with he | ho
    · rw [he, Nat.add_zero]; constructor <;> omega
    · rw [ho, hsucc]; constructor <;> omega

def roundToBits (bits n : Nat) : Nat :=
  let dropped := n.log2 + 1 - bits
  roundHalfEven n (1 <<< dropped) <<< dropped

/-- A number that has no more digits is not rounded. -/
theorem roundToBits_of_log2_lt {bits n : Nat} (h : n.log2 < bits) : roundToBits bits n = n := by
  have hd : n.log2 + 1 - bits = 0 := by omega
  simp [roundToBits, hd, roundHalfEven, Nat.mod_one]

end Arbor
