import Arbor.Generator

namespace Arbor.Generator

def after (gen : Generator) : Nat → Generator
  | 0 => gen
  | n + 1 => (gen.after n).advance

@[simp]
theorem after_zero (gen : Generator) : gen.after 0 = gen := rfl

theorem after_succ (gen : Generator) (n : Nat) : gen.after (n + 1) = (gen.after n).advance := rfl

/-- The state walks in equal steps, so it depends on the number of draws alone. -/
theorem state_after (gen : Generator) (n : Nat) :
    (gen.after n).state = gen.state + UInt32.ofNat n * stride := by
  induction n with
  | zero => simp
  | succ n ih =>
    have hone : UInt32.ofNat (n + 1) = UInt32.ofNat n + 1 := UInt32.ofNat_add n 1
    rw [after_succ, advance, ih, hone, UInt32.add_mul, UInt32.one_mul, UInt32.add_assoc]

/-- A pick is one draw, whatever it picks from. -/
theorem pick_of_ne_zero (gen : Generator) {count : Nat} (h : count ≠ 0) :
    gen.pick count = some (share count gen.next.1, gen.advance) := by
  rw [pick, if_neg h]

end Arbor.Generator
