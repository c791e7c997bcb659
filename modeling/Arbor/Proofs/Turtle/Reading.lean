import Arbor.Proofs.Symbols.SelfContained
import Arbor.Turtle.Instruction

namespace Arbor.Turtle

open Word

/-- Only a word without commands tells the turtle nothing. -/
theorem instructions_eq_nil_iff {w : Word} :
    instructions w = [] ↔ ∀ c ∈ w, Command.ofSymbol? c = none := by
  induction w with
  | nil => simp
  | cons c rest ih =>
    rw [List.forall_mem_cons]
    cases hc : Command.ofSymbol? c with
    | none => rw [instructions_cons_of_none hc, ih, and_iff_right rfl]
    | some command =>
      -- A command makes an instruction, with a payload or without.
      have hne : instructions (c :: rest) ≠ [] := by
        by_cases hp : command.takesPayload
        · rw [instructions_cons_of_takesPayload hc hp]
          exact List.cons_ne_nil _ _
        · rw [instructions_cons_of_not_takesPayload hc hp]
          exact List.cons_ne_nil _ _
      exact ⟨fun h => absurd h hne, fun h => absurd h.1 (Option.some_ne_none command)⟩

/-- A self-contained word is read by itself, whatever comes behind it but a payload. -/
theorem instructions_append {first second : Word} (hfirst : first.IsSelfContained)
    (hsecond : splitPayload? second = none) :
    instructions (first ++ second) = instructions first ++ instructions second := by
  -- A command takes its payload all at once, so the induction is on the length of the word.
  induction h : first.length using Nat.strongRecOn generalizing first with
  | ind n ih =>
    subst h
    cases first with
    | nil => rw [List.nil_append, instructions_nil, List.nil_append]
    | cons c rest =>
      have hrest := ih rest.length (Nat.lt_succ_self _) hfirst.2 rfl
      rw [List.cons_append]
      cases hc : Command.ofSymbol? c with
      | none => rw [instructions_cons_of_none hc, instructions_cons_of_none hc, hrest]
      | some command =>
        by_cases hp : command.takesPayload
        · have hlt : (takePayload rest).2.length < (c :: rest).length :=
            Nat.lt_succ_of_le (length_takePayload_le rest)
          have hafter := ih _ hlt hfirst.2.takePayload rfl
          rw [instructions_cons_of_takesPayload hc hp, instructions_cons_of_takesPayload hc hp,
            takePayload_append hfirst.2 hsecond, hafter, List.cons_append]
        · rw [instructions_cons_of_not_takesPayload hc hp,
            instructions_cons_of_not_takesPayload hc hp, hrest, List.cons_append]

end Arbor.Turtle
