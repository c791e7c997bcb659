import Arbor.Skeleton.Basic

/-! Cells of space. Places are kept inside the signed 32-bit range, and a block of cells is cut off
at its ends, so that no cell is met twice. -/

namespace Arbor

structure Cell where
  x : Int
  y : Int
  z : Int
  deriving DecidableEq, Hashable, Repr

namespace Cell

variable {α : Type} [Scalar α]

/-- The cell of a point in a grid of cubes of the given size. The outermost cells, at the ends of
the signed 32-bit range, hold all that lies beyond them. -/
def ofPoint (size : α) (p : Vector3 α) : Cell :=
  ⟨Scalar.floorInt32 (p.x / size), Scalar.floorInt32 (p.y / size), Scalar.floorInt32 (p.z / size)⟩

def span (center : Int) (reach : Nat) : List Int :=
  let first := max minInt32 (center - reach)
  let last := min maxInt32 (center + reach)
  (List.range (last + 1 - first).toNat).map fun (i : Nat) => first + i

def block (center : Cell) (reach : Nat) : List Cell :=
  (span center.x reach).flatMap fun x =>
    (span center.y reach).flatMap fun y =>
      (span center.z reach).map fun z => ⟨x, y, z⟩

/-- The cells in which a branch is stored: those of evenly spaced points of its axis, closer
together than the size of a cell. A branch within one cell is stored there, and one of no finite
length at its ends. -/
def ofBranch (size : α) (branch : Branch α) : List Cell :=
  let first := ofPoint size branch.base
  let last := ofPoint size branch.tip
  if first = last then [first]
  else if ¬Scalar.isFinite branch.length then [first, last]
  else
    let steps := Scalar.ceilNat (branch.length / size) + 1
    let cells := (List.range (steps + 1)).map fun (i : Nat) =>
      ofPoint size (branch.base.lerp branch.tip ((i : α) / (steps : α)))
    cells.eraseReps

/-- A span is cut off at the ends of the signed 32-bit range. -/
theorem mem_span {center i : Int} {reach : Nat} :
    i ∈ span center reach ↔
      (center - reach ≤ i ∧ i ≤ center + reach) ∧ minInt32 ≤ i ∧ i ≤ maxInt32 := by
  simp only [span, List.mem_map, List.mem_range]
  constructor
  · rintro ⟨k, hk, rfl⟩
    omega
  · intro h
    refine ⟨(i - max minInt32 (center - reach)).toNat, ?_, ?_⟩ <;> omega

theorem mem_block {center cell : Cell} {reach : Nat} :
    cell ∈ block center reach ↔
      cell.x ∈ span center.x reach ∧ cell.y ∈ span center.y reach ∧
        cell.z ∈ span center.z reach := by
  obtain ⟨x, y, z⟩ := cell
  simp only [block, List.mem_flatMap, List.mem_map, mk.injEq]
  constructor
  · rintro ⟨x', hx, y', hy, z', hz, rfl, rfl, rfl⟩
    exact ⟨hx, hy, hz⟩
  · rintro ⟨hx, hy, hz⟩
    exact ⟨x, hx, y, hy, z, hz, rfl, rfl, rfl⟩

end Cell

end Arbor
