import Arbor.Generator
import Arbor.Symbols.Payload

namespace Arbor

inductive Production
  | fixed (replacement : Word)
  | stochastic (alternatives : List Word)
  deriving DecidableEq, Repr

namespace Production

/-- The replacement and the generator after choosing it. Only a choice between alternatives draws
a word; with no alternative there is no replacement. -/
def choose (gen : Generator) : Production → Option (Word × Generator)
  | fixed replacement => some (replacement, gen)
  | stochastic alternatives => do
    let (place, gen) ← gen.pick alternatives.length
    let replacement ← alternatives[place]?
    return (replacement, gen)

def isStochastic : Production → Bool
  | fixed _ => false
  | stochastic _ => true

theorem choose_stochastic_nil (gen : Generator) : (stochastic []).choose gen = none := rfl

end Production

structure Rules where
  entries : List (Char × Production)
  nodup : (entries.map (·.1)).Nodup

namespace Rules

def empty : Rules := ⟨[], List.nodup_nil⟩

def insert (rules : Rules) (symbol : Char) (production : Production) : Rules where
  entries := (symbol, production) :: rules.entries.filter (·.1 ≠ symbol)
  nodup := by
    rw [List.map_cons, List.nodup_cons]
    exact ⟨by simp, rules.nodup.sublist (List.filter_sublist.map _)⟩

def ofList (entries : List (Char × Production)) : Rules :=
  entries.foldl (fun rules entry => rules.insert entry.1 entry.2) empty

def get? (rules : Rules) (symbol : Char) : Option Production :=
  (rules.entries.find? (·.1 = symbol)).map (·.2)

def size (rules : Rules) : Nat :=
  rules.entries.length

@[simp]
theorem get?_empty (symbol : Char) : empty.get? symbol = none := by
  simp [empty, get?]

@[simp]
theorem get?_insert (rules : Rules) (symbol other : Char) (production : Production) :
    (rules.insert symbol production).get? other =
      if symbol = other then some production else rules.get? other := by
  by_cases h : symbol = other
  · simp [insert, get?, h]
  · have hfind : (rules.entries.filter (·.1 ≠ symbol)).find? (·.1 = other) =
        rules.entries.find? (·.1 = other) := by
      rw [List.find?_filter]
      congr 1
      funext entry
      by_cases he : entry.1 = other
      · simp [he, Ne.symm h]
      · simp [he]
    simp only [insert, get?, List.find?_cons, h, decide_false, if_false, hfind]

end Rules

end Arbor
