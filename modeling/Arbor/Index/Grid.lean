import Std.Data.HashMap
import Arbor.Index.Cell

namespace Arbor

/-- The occupied cells of space, each with the numbers stored in it in the order they came. -/
structure Grid where
  cells : Std.HashMap Cell (Array Nat)

namespace Grid

def empty : Grid := ⟨∅⟩

def insert (grid : Grid) (entry : Cell × Nat) : Grid :=
  ⟨grid.cells.alter entry.1 fun stored => some ((stored.getD #[]).push entry.2)⟩

def insertAll (grid : Grid) (entries : List (Cell × Nat)) : Grid :=
  entries.foldl insert grid

def ofList (entries : List (Cell × Nat)) : Grid :=
  empty.insertAll entries

def clear (_ : Grid) : Grid := empty

def get (grid : Grid) (cell : Cell) : List Nat :=
  (grid.cells[cell]?.getD #[]).toList

def size (grid : Grid) : Nat :=
  grid.cells.size

def around (grid : Grid) (center : Cell) (reach : Nat) : List Nat :=
  (center.block reach).flatMap grid.get

def entries (grid : Grid) : List Nat :=
  grid.cells.toList.flatMap fun cell => cell.2.toList

@[simp]
theorem get_empty (cell : Cell) : empty.get cell = [] := by
  simp [empty, get]

theorem get_insert (grid : Grid) (entry : Cell × Nat) (cell : Cell) :
    (grid.insert entry).get cell =
      grid.get cell ++ if entry.1 = cell then [entry.2] else [] := by
  unfold insert get
  rw [Std.HashMap.getElem?_alter]
  by_cases h : entry.1 = cell
  · simp [h]
  · simp [h]

/-- A cell keeps its entries in the order they came. -/
theorem get_insertAll (entries : List (Cell × Nat)) (grid : Grid) (cell : Cell) :
    (grid.insertAll entries).get cell =
      grid.get cell ++ (entries.filter (·.1 = cell)).map (·.2) := by
  induction entries generalizing grid with
  | nil => simp [insertAll]
  | cons entry entries ih =>
    have hrest : grid.insertAll (entry :: entries) = (grid.insert entry).insertAll entries := rfl
    rw [hrest, ih, get_insert, List.append_assoc]
    by_cases h : entry.1 = cell
    · simp [h]
    · simp [h]

theorem get_ofList (entries : List (Cell × Nat)) (cell : Cell) :
    (ofList entries).get cell = (entries.filter (·.1 = cell)).map (·.2) := by
  rw [ofList, get_insertAll, get_empty, List.nil_append]

end Grid

end Arbor
