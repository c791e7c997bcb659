import Arbor.Scalar.Basic

namespace Arbor.Bowl

variable {α : Type} [Scalar α]

def point (radius depth rim t : α) : α × α :=
  (t * radius, depth * (t * t - 1.0) + rim * (t * t))

/-- The profile of a bowl in so many segments, from the center to the rim. Turned about the axis
it is the bowl's surface. Without segments only the center is left. -/
def profile (radius depth rim : α) (segments : Nat) : List (α × α) :=
  if segments = 0 then [(0.0, -depth)]
  else (List.range (segments + 1)).map fun (i : Nat) =>
    point radius depth rim ((i : α) / (segments : α))

end Arbor.Bowl
