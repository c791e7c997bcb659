import Arbor.Symbols.Payload

/-! Words as lists of instructions. What the turtle does is then a fold over the list, and what a
word says is settled before anything is drawn. -/

namespace Arbor.Turtle

inductive Turn
  | yaw
  | pitch
  | roll
  deriving DecidableEq, Repr

inductive Command
  | draw
  | move
  | turn (about : Turn) (backward : Bool)
  | width
  | mark
  | push
  | pop
  deriving DecidableEq, Repr

namespace Command

def ofSymbol? : Char → Option Command
  | 'F' => some draw
  | 'G' => some draw
  | 'f' => some move
  | '+' => some (turn .yaw false)
  | '-' => some (turn .yaw true)
  | '^' => some (turn .pitch false)
  | '&' => some (turn .pitch true)
  | '/' => some (turn .roll false)
  | '\\' => some (turn .roll true)
  | '!' => some width
  | '@' => some mark
  | '[' => some push
  | ']' => some pop
  | _ => none

def takesPayload : Command → Bool
  | push => false
  | pop => false
  | _ => true

end Command

structure Instruction where
  command : Command
  payload : Option Word
  deriving DecidableEq, Repr

open Word in
/-- The commands in a word. Symbols without one are skipped alone, so that a payload behind them
is read as symbols. -/
def instructions (w : Word) : List Instruction :=
  match w with
  | [] => []
  | c :: rest =>
    match Command.ofSymbol? c with
    | none => instructions rest
    | some command =>
      if command.takesPayload then
        ⟨command, (takePayload rest).1⟩ :: instructions (takePayload rest).2
      else ⟨command, none⟩ :: instructions rest
termination_by w.length
decreasing_by
  · simp
  · have := length_takePayload_le rest; simp; omega
  · simp

@[simp]
theorem instructions_nil : instructions [] = [] := by
  rw [instructions]

/-- A symbol without a command is skipped alone, without the payload behind it. -/
theorem instructions_cons_of_none {c : Char} (h : Command.ofSymbol? c = none) (rest : Word) :
    instructions (c :: rest) = instructions rest := by
  rw [instructions, h]

/-- A command that takes a payload takes the one behind it, if there is one. -/
theorem instructions_cons_of_takesPayload {c : Char} {command : Command}
    (h : Command.ofSymbol? c = some command) (hp : command.takesPayload) (rest : Word) :
    instructions (c :: rest) =
      ⟨command, (Word.takePayload rest).1⟩ :: instructions (Word.takePayload rest).2 := by
  rw [instructions, h]
  exact if_pos hp

/-- A command that takes no payload leaves one behind it to be read as symbols. -/
theorem instructions_cons_of_not_takesPayload {c : Char} {command : Command}
    (h : Command.ofSymbol? c = some command) (hp : ¬command.takesPayload) (rest : Word) :
    instructions (c :: rest) = ⟨command, none⟩ :: instructions rest := by
  rw [instructions, h]
  exact if_neg hp

end Arbor.Turtle
