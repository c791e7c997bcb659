import Arbor.Decimal.Shortest
import Arbor.Index.Basic
import Arbor.Scalar.Binary

namespace Arbor

/-- The shortest decimal that reads back as the same single-precision number. It is positional
while the power of ten of its first digit lies between -4 and 15, and scientific beyond. -/
def shortestText : Binary → List Char
  | .undefined => ['N', 'a', 'N']
  | .infinite negative => Decimal.Fixed.signText negative ++ ['i', 'n', 'f']
  | .finite negative mantissa exponent =>
    Decimal.Fixed.signText negative ++
      if mantissa = 0 then ['0', '.', '0']
      else
        match (Decimal.Interval.ofBinary 23 mantissa exponent (exponent = -149)).shortest? 9 with
        | none => []
        | some figures =>
          if -4 ≤ figures.leading ∧ figures.leading ≤ 15 then figures.positional
          else figures.scientific

def SpatialIndex.summary (index : SpatialIndex Float32) : String :=
  let size := String.ofList (shortestText (Binary.ofFloat32 index.cellSize))
  s!"SpatialIndex \x7b cell_size: {size}, nodes: {index.markers.size}, " ++
    s!"segments: {index.branches.size}, node_cells: {index.markerGrid.size}, " ++
    s!"segment_cells: {index.branchGrid.size}, .. \x7d"

end Arbor
