import Mathlib.Analysis.Real.Sqrt
import Mathlib.Data.List.Nodup
import Arbor.Index.Cell
import Arbor.Proofs.Space.Distance

/-! Blocks of cells in exact arithmetic. A block meets no cell twice, and it holds the cell of every
point that is no farther from the center, along each axis, than the block reaches. -/

namespace Arbor

/-- Lists without repetition, of which no two share an entry, have none together. -/
theorem nodup_flatMap_of_unique {β γ : Type} {list : List β} {f : β → List γ} (hlist : list.Nodup)
    (hf : ∀ x ∈ list, (f x).Nodup) (hunique : ∀ x x' y, y ∈ f x → y ∈ f x' → x = x') :
    (list.flatMap f).Nodup := by
  rw [List.nodup_flatMap]
  refine ⟨hf, hlist.imp ?_⟩
  intro x x' hne y hy hy'
  exact hne (hunique x x' y hy hy')

namespace Cell

open Scalar (floorInt32)

theorem nodup_span (center : Int) (reach : Nat) : (span center reach).Nodup := by
  apply List.nodup_range.map
  intro i j h
  have hsum : max minInt32 (center - reach) + (i : Int) =
      max minInt32 (center - reach) + (j : Int) := h
  omega

/-- A block meets no cell twice, also where it is cut off at the ends of the range. -/
theorem nodup_block (center : Cell) (reach : Nat) : (center.block reach).Nodup := by
  -- Each coordinate of a cell says in which round of its loop the cell is met.
  apply nodup_flatMap_of_unique (nodup_span center.x reach)
  · intro x _
    apply nodup_flatMap_of_unique (nodup_span center.y reach)
    · intro y _
      exact (nodup_span center.z reach).map fun z z' h => (Cell.mk.inj h).2.2
    · intro y y' cell hcell hcell'
      obtain ⟨z, -, rfl⟩ := List.mem_map.1 hcell
      obtain ⟨z', -, hsame⟩ := List.mem_map.1 hcell'
      exact (Cell.mk.inj hsame).2.1.symm
  · intro x x' cell hcell hcell'
    obtain ⟨y, -, hmem⟩ := List.mem_flatMap.1 hcell
    obtain ⟨y', -, hmem'⟩ := List.mem_flatMap.1 hcell'
    obtain ⟨z, -, rfl⟩ := List.mem_map.1 hmem
    obtain ⟨z', -, hsame⟩ := List.mem_map.1 hmem'
    exact (Cell.mk.inj hsame).1.symm

variable {size : ℝ} {reach : Nat}

/-- Along one axis, points at most so many cells apart lie in cells at most so far apart. -/
theorem floorInt32_div_near (hsize : 0 < size) {a b : ℝ} (h : |a - b| ≤ reach * size) :
    floorInt32 (b / size) ∈ span (floorInt32 (a / size)) reach := by
  have hcells : |a / size - b / size| ≤ reach := by
    rw [← sub_div, abs_div, abs_of_pos hsize, div_le_iff₀ hsize]
    exact h
  rw [mem_span]
  exact ⟨Scalar.floorInt32_sub_le hcells, Scalar.floorInt32_mem _⟩

/-- The block that reaches over so many cells holds the cells of all points that are at most their
sizes away along each axis. -/
theorem ofPoint_mem_block (hsize : 0 < size) {p q : Vector3 ℝ} {r : ℝ} (h : p.Within q r)
    (hr : r ≤ reach * size) : ofPoint size q ∈ (ofPoint size p).block reach :=
  mem_block.2 ⟨floorInt32_div_near hsize (h.x_le.trans hr),
    floorInt32_div_near hsize (h.y_le.trans hr), floorInt32_div_near hsize (h.z_le.trans hr)⟩

end Cell

end Arbor
