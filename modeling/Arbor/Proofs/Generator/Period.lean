import Mathlib.Data.Int.ModEq
import Mathlib.Dynamics.PeriodicPts.Lemmas
import Arbor.Proofs.Generator.Draws

/-! The draws from a seed repeat only after all states have been passed. The states are the words,
and a draw adds an odd number to its word, which has an inverse modulo `range`: the count of draws
between two states can be read off their difference. -/

namespace Arbor.Generator

open Function (minimalPeriod)

def rest (gen : Generator) : Generator := gen.next.2

/-- Draws made one after the other are what the stream counts. -/
theorem iterate_rest (gen : Generator) (n : ℕ) : rest^[n] gen = gen.after n := by
  induction n with
  | zero => rfl
  | succ n ih =>
    rw [Function.iterate_succ_apply', ih, after_succ]
    rfl

/-- Each draw moves the state on by the same stride, whatever it gives out. -/
theorem state_iterate_rest (gen : Generator) (n : ℕ) :
    (rest^[n] gen).state = gen.state + UInt32.ofNat n * stride := by
  rw [iterate_rest, state_after]

def strideInverse : UInt32 := 0xdc58aa5d

/-- The stride is odd, so it has an inverse among the 32-bit words. -/
theorem mul_stride_mul_inverse (word : UInt32) : word * stride * strideInverse = word := by
  have hone : stride * strideInverse = 1 := by decide
  rw [UInt32.mul_assoc, hone, UInt32.mul_one]

theorem mul_inverse_mul_stride (word : UInt32) : word * strideInverse * stride = word := by
  rw [UInt32.mul_assoc, UInt32.mul_comm strideInverse, ← UInt32.mul_assoc, mul_stride_mul_inverse]

theorem mul_stride_inj {word word' : UInt32} : word * stride = word' * stride ↔ word = word' := by
  constructor
  · intro h
    have hcancel := congrArg (· * strideInverse) h
    simpa only [mul_stride_mul_inverse] using hcancel
  · exact congrArg (· * stride)

/-- Numbers make the same 32-bit word if they agree modulo the number of words. -/
theorem ofNat_eq_ofNat_iff {m n : ℕ} : UInt32.ofNat m = UInt32.ofNat n ↔ m ≡ n [MOD range] := by
  rw [← UInt32.toNat_inj, UInt32.toNat_ofNat', UInt32.toNat_ofNat']
  rfl

theorem eq_of_state_eq {gen gen' : Generator} (h : gen.state = gen'.state) : gen = gen' := by
  cases gen
  cases gen'
  exact congrArg mk h

/-- Two runs from one seed meet where their counts of draws differ by a multiple of `range`. -/
theorem iterate_rest_eq_iff (gen : Generator) {m n : ℕ} :
    rest^[m] gen = rest^[n] gen ↔ m ≡ n [MOD range] := by
  rw [← ofNat_eq_ofNat_iff, ← mul_stride_inj, ← UInt32.add_right_inj gen.state,
    ← state_iterate_rest, ← state_iterate_rest]
  exact ⟨congrArg state, eq_of_state_eq⟩

def draws (gen gen' : Generator) : ℕ :=
  ((gen'.state - gen.state) * strideInverse).toNat

theorem draws_lt (gen gen' : Generator) : gen.draws gen' < range :=
  UInt32.toNat_lt _

/-- From any seed every other one is reached, in fewer draws than there are words. -/
theorem iterate_rest_draws (gen gen' : Generator) : rest^[gen.draws gen'] gen = gen' := by
  apply eq_of_state_eq
  rw [state_iterate_rest, draws, UInt32.ofNat_toNat, mul_inverse_mul_stride, UInt32.add_comm,
    UInt32.sub_add_cancel]

/-- A generator comes back to its seed only after all other states. -/
theorem minimalPeriod_rest (gen : Generator) : minimalPeriod rest gen = range := by
  -- A count of draws leads back to the seed where it is a multiple of `range`.
  have hback (n : ℕ) : minimalPeriod rest gen ∣ n ↔ range ∣ n := by
    rw [← Function.isPeriodicPt_iff_minimalPeriod_dvd, ← Nat.modEq_zero_iff_dvd]
    exact iterate_rest_eq_iff gen (n := 0)
  apply Nat.dvd_antisymm
  · exact (hback range).2 (Nat.dvd_refl range)
  · exact (hback _).1 (Nat.dvd_refl _)

/-- Draws walk in equal steps round all states: the first `range` states from a seed are different,
then they repeat, and every other seed is one of them. -/
theorem rest_hasFullPeriod (gen : Generator) :
    (∀ n, (rest^[n] gen).state.toNat = (gen.state.toNat + n * 0x6d2b79f5) % range) ∧
    Set.InjOn (fun n => rest^[n] gen) (Set.Iio range) ∧
    (∀ m n, rest^[m] gen = rest^[n] gen ↔ m ≡ n [MOD range]) ∧
    minimalPeriod rest gen = range ∧
    ∀ gen', ∃ n < range, rest^[n] gen = gen' := by
  refine ⟨?_, ?_, ?_, minimalPeriod_rest gen, ?_⟩
  · intro n
    have hstride : stride.toNat = 0x6d2b79f5 := by decide
    rw [state_iterate_rest, UInt32.toNat_add, UInt32.toNat_mul, UInt32.toNat_ofNat', hstride]
    rw [Nat.mod_mul_mod]
    exact Nat.add_mod_mod _ _ _
  · intro m hm n hn h
    have hmod := (iterate_rest_eq_iff gen).1 h
    exact Nat.ModEq.eq_of_lt_of_lt hmod hm hn
  · intro m n
    exact iterate_rest_eq_iff gen
  · intro gen'
    exact ⟨gen.draws gen', draws_lt gen gen', iterate_rest_draws gen gen'⟩

end Arbor.Generator
