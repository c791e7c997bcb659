import Arbor.Index.Grid

namespace Arbor

variable {α : Type} [Scalar α]

def markerEntries (cellSize : α) (markers : Array (Marker α)) : List (Cell × Nat) :=
  markers.toList.zipIdx.map fun (marker, i) => (Cell.ofPoint cellSize marker.position, i)

def branchEntries (cellSize : α) (branches : Array (Branch α)) : List (Cell × Nat) :=
  branches.toList.zipIdx.flatMap fun (branch, i) => (Cell.ofBranch cellSize branch).map (·, i)

/-- A tree's markers and branches, sorted into the cells of a grid so that what lies near a point
is found without a search through all of them. -/
structure SpatialIndex (α : Type) [Scalar α] where
  cellSize : α
  markers : Array (Marker α)
  branches : Array (Branch α)
  markerGrid : Grid := Grid.ofList (markerEntries cellSize markers)
  branchGrid : Grid := Grid.ofList (branchEntries cellSize branches)
  markerGrid_eq : markerGrid = Grid.ofList (markerEntries cellSize markers) := by rfl
  branchGrid_eq : branchGrid = Grid.ofList (branchEntries cellSize branches) := by rfl

namespace SpatialIndex

def defaultCellSize : α := 5.0

def minCells : Nat := 8

def maxCells : Nat := 20

def usableCellSize (size : α) : α :=
  if Scalar.isFinite size ∧ 0.0 < size then size else defaultCellSize

def cellsFor (count : Nat) : Nat :=
  ((List.range' minCells (maxCells - minCells)).find? fun n => count ≤ n * n).getD maxCells

def cellSizeFor (bounds : Box α) (count : Nat) : α :=
  usableCellSize (Scalar.maxNum (bounds.longestSide / (cellsFor count : α)) 1.0)

def empty (cellSize : α) : SpatialIndex α where
  cellSize := usableCellSize cellSize
  markers := #[]
  branches := #[]

/-- The index with other contents, for which its grids are cleared and filled again. It keeps its
cell size unless bounds are given to derive one from. -/
def rebuild (index : SpatialIndex α) (markers : Array (Marker α)) (branches : Array (Branch α))
    (bounds : Option (Box α)) : SpatialIndex α :=
  let cellSize := match bounds with
    | some box => cellSizeFor box markers.size
    | none => index.cellSize
  { cellSize
    markers
    branches
    markerGrid := index.markerGrid.clear.insertAll (markerEntries cellSize markers)
    branchGrid := index.branchGrid.clear.insertAll (branchEntries cellSize branches) }

def build (markers : Array (Marker α)) (branches : Array (Branch α)) (bounds : Option (Box α)) :
    SpatialIndex α :=
  (empty defaultCellSize).rebuild markers branches bounds

def ofSkeleton (skeleton : Skeleton α) : SpatialIndex α :=
  build skeleton.markers skeleton.branches (some skeleton.bounds)

end SpatialIndex

end Arbor
