import Arbor.Proofs.Turtle.Reading
import Arbor.Scalar.Binary
import Arbor.Turtle.Walk

/-! Symbols without a command. The turtle passes over such a symbol alone: what looks like its
payload is read like any other part of the word, so only a payload without commands leaves no
trace. -/

namespace Arbor

namespace Turtle

open Word

/-- A payload that is read as symbols does nothing only if none of them has a command. -/
theorem instructions_append_close_eq_nil_iff {payload : Word} :
    instructions (payload ++ [')']) = [] ↔ ∀ c ∈ payload, Command.ofSymbol? c = none := by
  have hclose : Command.ofSymbol? ')' = none := rfl
  rw [instructions_eq_nil_iff, List.forall_mem_append, List.forall_mem_singleton,
    and_iff_left hclose]

/-- A payload behind an unknown symbol is read as symbols, up to the `)` that ends it. -/
theorem instructions_unknown_append {c : Char} (hc : Command.ofSymbol? c = none) (payload : Word)
    {last : Word} (hlast : splitPayload? last = none) :
    instructions (c :: enclose payload ++ last) =
      instructions (payload ++ [')']) ++ instructions last := by
  have hopen : Command.ofSymbol? '(' = none := rfl
  have hword : c :: enclose payload ++ last = c :: '(' :: ((payload ++ [')']) ++ last) := rfl
  rw [hword, instructions_cons_of_none hc, instructions_cons_of_none hopen,
    instructions_append (isSelfContained_append_close payload) hlast]

variable {α : Type} [Scalar α] [Trig α]

/-- A symbol without a command hides itself and not its payload. The turtle carries out the commands
in the payload between those on either side, and the symbol and the payload might as well not be
there if and only if there are none. -/
theorem interpret_unknown_symbol (angle : α) {first last : Word} {c : Char}
    (hfirst : first.IsSelfContained) (hlast : last.head? ≠ some '(')
    (hc : Command.ofSymbol? c = none) (hopen : c ≠ '(') (payload : Word) :
    instructions (first ++ (c :: enclose payload ++ last)) =
        instructions first ++ (instructions (payload ++ [')']) ++ instructions last) ∧
      (instructions (first ++ (c :: enclose payload ++ last)) = instructions (first ++ last) ↔
        ∀ d ∈ payload, Command.ofSymbol? d = none) ∧
      ((∀ d ∈ payload, Command.ofSymbol? d = none) →
        interpret angle (first ++ (c :: enclose payload ++ last)) =
          interpret angle (first ++ last)) := by
  have hlast' : splitPayload? last = none := splitPayload?_of_head?_ne hlast
  have hrest : splitPayload? (c :: enclose payload ++ last) = none :=
    splitPayload?_of_head_ne hopen _
  have hread : instructions (first ++ (c :: enclose payload ++ last)) =
      instructions first ++ (instructions (payload ++ [')']) ++ instructions last) := by
    rw [instructions_append hfirst hrest, instructions_unknown_append hc payload hlast']
  have hsame : instructions (first ++ (c :: enclose payload ++ last)) =
      instructions (first ++ last) ↔ ∀ d ∈ payload, Command.ofSymbol? d = none := by
    rw [hread, instructions_append hfirst hlast', List.append_cancel_left_eq,
      List.append_left_eq_self, instructions_append_close_eq_nil_iff]
  refine ⟨hread, hsame, ?_⟩
  intro hsilent
  rw [interpret, interpret, hsame.2 hsilent]

/-- A payload of digits and a payload with an unclosed part, neither of them with a command. -/
theorem interpret_unknown_symbol_digits :
    IsSelfContained ['F', '(', '2', ')'] ∧ ['G'].head? ≠ some '(' ∧
      Command.ofSymbol? 'Q' = none ∧ 'Q' ≠ '(' ∧
      interpret (25.0 : Float32) "F(2)Q(9(0)G".toList = interpret 25.0 "F(2)G".toList := by
  have hfirst : IsSelfContained ['F', '(', '2', ')'] := by decide
  have hlast : ['G'].head? ≠ some '(' := by decide
  have hc : Command.ofSymbol? 'Q' = none := rfl
  have hopen : 'Q' ≠ '(' := by decide
  have hsilent : ∀ d ∈ ['9', '(', '0'], Command.ofSymbol? d = none := by simp [Command.ofSymbol?]
  obtain ⟨-, -, hgone⟩ :=
    interpret_unknown_symbol (25.0 : Float32) hfirst hlast hc hopen ['9', '(', '0']
  exact ⟨hfirst, hlast, hc, hopen, hgone hsilent⟩

/-- A command in the payload of an unknown symbol is carried out. -/
theorem unknown_symbol_draws :
    ¬∀ (angle : Float32) (first last payload : Word) (c : Char), first.IsSelfContained →
      last.IsSelfContained → last.head? ≠ some '(' → Command.ofSymbol? c = none → c ≠ '(' →
      c ≠ ')' → ')' ∉ payload →
      interpret angle (first ++ (c :: enclose payload ++ last)) =
        interpret angle (first ++ last) := by
  intro hall
  have hsame := hall 25.0 [] [] ['F'] 'Q' trivial trivial (by decide) rfl (by decide) (by decide)
    (by decide)
  have hdrawn : instructions ([] ++ ('Q' :: enclose ['F'] ++ [])) = [⟨.draw, none⟩] := by
    decide +kernel
  have hnone : instructions ([] ++ []) = [] := instructions_nil
  rw [interpret, interpret, hdrawn, hnone] at hsame
  have hsize : 1 = 0 := congrArg (·.branches.size) hsame
  exact absurd hsize (by decide)

end Turtle

end Arbor
