import Arbor.Grammar.Rules

/-! Derivations of words. A pass reads payloads whole, so that nothing inside one is taken for a
symbol. -/

namespace Arbor.Rules

open Word

def IsStructural (symbol : Char) : Prop :=
  symbol = '(' ∨ symbol = '[' ∨ symbol = ']'

instance (symbol : Char) : Decidable (IsStructural symbol) :=
  inferInstanceAs (Decidable (_ ∨ _))

def replacement? (rules : Rules) (gen : Generator) (symbol : Char) : Option (Word × Generator) :=
  if IsStructural symbol then none else (rules.get? symbol).bind (Production.choose gen)

/-- One pass over a word, from left to right. Payloads are copied, and so are symbols without a
replacement; a replaced symbol takes the payload behind it away. -/
def derive (rules : Rules) (gen : Generator) (w : Word) : Word × Generator :=
  match w with
  | [] => ([], gen)
  | c :: rest =>
    match _h : splitPayload? (c :: rest) with
    | some (payload, after) =>
      let (out, gen) := derive rules gen after
      (enclose payload ++ out, gen)
    | none =>
      match rules.replacement? gen c with
      | some (replacement, gen) =>
        let (out, gen) := derive rules gen (dropPayload rest)
        (replacement ++ out, gen)
      | none =>
        let (out, gen) := derive rules gen rest
        (c :: out, gen)
termination_by w.length
decreasing_by
  · have := length_lt_of_splitPayload? _h; simpa using this
  · have := length_dropPayload_le rest; simp; omega
  · simp

@[simp]
theorem derive_nil (rules : Rules) (gen : Generator) : rules.derive gen [] = ([], gen) := by
  rw [derive]

/-- A payload is copied. -/
theorem derive_of_split (rules : Rules) (gen : Generator) {w payload after : Word}
    (h : splitPayload? w = some (payload, after)) :
    rules.derive gen w =
      (enclose payload ++ (rules.derive gen after).1, (rules.derive gen after).2) := by
  cases w with
  | nil => simp at h
  | cons c rest =>
    rw [derive]
    split
    · rename_i h'
      rw [h, Option.some.injEq, Prod.mk.injEq] at h'
      obtain ⟨rfl, rfl⟩ := h'
      rfl
    · rename_i h'
      simp [h] at h'

theorem replacement?_eq_none_of_split (rules : Rules) (gen : Generator) {c : Char} {rest : Word}
    (h : splitPayload? (c :: rest) ≠ none) : rules.replacement? gen c = none := by
  have hc : c = '(' := Decidable.byContradiction fun hne => h (splitPayload?_of_head_ne hne rest)
  simp [replacement?, IsStructural, hc]

/-- A replaced symbol takes the payload behind it away. -/
theorem derive_cons_of_some (rules : Rules) {gen gen' : Generator} {c : Char} {replacement : Word}
    (h : rules.replacement? gen c = some (replacement, gen')) (rest : Word) :
    rules.derive gen (c :: rest) =
      (replacement ++ (rules.derive gen' (dropPayload rest)).1,
        (rules.derive gen' (dropPayload rest)).2) := by
  rw [derive]
  split
  · rename_i h'
    have hsplit : splitPayload? (c :: rest) ≠ none := by simp [h']
    simp [replacement?_eq_none_of_split rules gen hsplit] at h
  · simp [h]

/-- A symbol without a replacement is copied. -/
theorem derive_cons_of_none (rules : Rules) {gen : Generator} {c : Char} {rest : Word}
    (hs : splitPayload? (c :: rest) = none) (h : rules.replacement? gen c = none) :
    rules.derive gen (c :: rest) = (c :: (rules.derive gen rest).1, (rules.derive gen rest).2) := by
  rw [derive]
  split
  · rename_i h'
    simp [hs] at h'
  · simp [h]

def expand (rules : Rules) : Nat → Generator → Word → Word × Generator
  | 0, gen, w => (w, gen)
  | passes + 1, gen, w =>
    let (w, gen) := rules.derive gen w
    rules.expand passes gen w

@[simp]
theorem expand_zero (rules : Rules) (gen : Generator) (w : Word) :
    rules.expand 0 gen w = (w, gen) := rfl

theorem expand_succ (rules : Rules) (passes : Nat) (gen : Generator) (w : Word) :
    rules.expand (passes + 1) gen w =
      rules.expand passes (rules.derive gen w).2 (rules.derive gen w).1 := rfl

/-- Passes go on where earlier ones stopped, with the generator as they left it. -/
theorem expand_add (rules : Rules) (first second : Nat) (gen : Generator) (w : Word) :
    rules.expand (first + second) gen w =
      rules.expand second (rules.expand first gen w).2 (rules.expand first gen w).1 := by
  induction first generalizing gen w with
  | zero => rw [Nat.zero_add, expand_zero]
  | succ first ih => rw [Nat.succ_add, expand_succ, expand_succ, ih]

end Arbor.Rules
