import Arbor.Index.Basic
import Arbor.Space.Projection

/-! Searches in an index. The nearest marker and the nearest branch are looked for in a block of 27
cells; the markers within a radius in a block that covers it, or in all cells if there are fewer
of them. -/

namespace Arbor

variable {α β : Type} [Scalar α]

structure Candidate (α β : Type) where
  place : Nat
  distance : α
  item : β
  deriving Repr

namespace Candidate

def Beats (c best : Candidate α β) : Prop :=
  c.distance < best.distance ∨ (c.distance ≤ best.distance ∧ c.place < best.place)

instance (c best : Candidate α β) : Decidable (c.Beats best) :=
  inferInstanceAs (Decidable (_ ∨ _))

def better (best : Option (Candidate α β)) (c : Candidate α β) : Option (Candidate α β) :=
  match best with
  | none => some c
  | some b => if c.Beats b then some c else some b

def nearest? (candidates : List (Candidate α β)) : Option (Candidate α β) :=
  candidates.foldl better none

end Candidate

structure BranchHit (α : Type) where
  branch : Branch α
  place : Nat
  ratio : α
  distance : α
  point : Vector3 α
  deriving Repr

namespace SpatialIndex

def markerCandidates (index : SpatialIndex α) (p : Vector3 α) (places : List Nat) :
    List (Candidate α (Marker α)) :=
  places.filterMap fun i =>
    index.markers[i]?.map fun marker => ⟨i, p.distanceSq marker.position, marker⟩

def nearbyMarkers (index : SpatialIndex α) (p : Vector3 α) : List (Candidate α (Marker α)) :=
  index.markerCandidates p (index.markerGrid.around (Cell.ofPoint index.cellSize p) 1)

def nearestMarker? (index : SpatialIndex α) (p : Vector3 α) : Option (Marker α) :=
  (Candidate.nearest? ((index.nearbyMarkers p).filter (Scalar.isFinite ·.distance))).map (·.item)

def nearestMarkerWithin? (index : SpatialIndex α) (p : Vector3 α) (limit : α) :
    Option (Marker α) :=
  if (0.0 : α) ≤ limit then
    (Candidate.nearest? ((index.nearbyMarkers p).filter (·.distance < limit * limit))).map (·.item)
  else none

/-- How many cells to search on each side for markers within a radius, unless the block of them is
larger than the number of occupied cells. -/
def searchReach? (index : SpatialIndex α) (radius : α) : Option Nat :=
  let reach := Scalar.ceilNat (radius / index.cellSize)
  let side := 2 * reach + 1
  if side * side * side ≤ index.markerGrid.size then some reach else none

def searchPlaces (index : SpatialIndex α) (p : Vector3 α) (radius : α) : List Nat :=
  match index.searchReach? radius with
  | some reach => index.markerGrid.around (Cell.ofPoint index.cellSize p) reach
  | none => index.markerGrid.entries

def markersWithin (index : SpatialIndex α) (p : Vector3 α) (radius : α) : List (Marker α) :=
  if (0.0 : α) ≤ radius then
    let hits := (index.markerCandidates p (index.searchPlaces p radius)).filter
      (·.distance ≤ radius * radius)
    (hits.mergeSort (·.place ≤ ·.place)).map (·.item)
  else []

def branchCandidates (index : SpatialIndex α) (p : Vector3 α) (places : List Nat) :
    List (Candidate α (Branch α × Projection α)) :=
  places.filterMap fun i =>
    index.branches[i]?.map fun branch =>
      let foot := Projection.onto p branch.base branch.tip
      ⟨i, p.distance foot.point, branch, foot⟩

/-- The nearest of the branches stored in the cell of a point and in those next to it, the first
of those equally near. -/
def nearestBranch? (index : SpatialIndex α) (p : Vector3 α) : Option (BranchHit α) :=
  let places := index.branchGrid.around (Cell.ofPoint index.cellSize p) 1
  (Candidate.nearest? (index.branchCandidates p places)).map fun c =>
    ⟨c.item.1, c.place, c.item.2.ratio, c.distance, c.item.2.point⟩

end SpatialIndex

end Arbor
