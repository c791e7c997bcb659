import Arbor.Scalar.Basic

namespace Arbor

structure Hotspot (α : Type) where
  path : String
  churn : α
  complexity : α
  risk : α
  deriving Repr

/-- The risk of a path: that of the first record for it, zero without one. -/
def Hotspot.riskAt {α : Type} [Scalar α] (hotspots : List (Hotspot α)) (path : String) : α :=
  match hotspots.find? (·.path = path) with
  | some hotspot => hotspot.risk
  | none => 0.0

end Arbor
