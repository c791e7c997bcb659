import Arbor.Grammar.Derivation

namespace Arbor

structure LSystem (α : Type) where
  start : Word
  rules : Rules
  passes : Nat
  angle : α
  seed : UInt32

namespace LSystem

variable {α : Type}

def defaultAngle [Scalar α] : α := 25.0

def defaultSeed : UInt32 := 42

/-- The word after all passes. Every expansion starts a generator of its own from the seed. -/
def expand (system : LSystem α) : Word :=
  (system.rules.expand system.passes ⟨system.seed⟩ system.start).1

end LSystem

end Arbor
