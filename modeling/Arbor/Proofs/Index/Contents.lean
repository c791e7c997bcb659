import Arbor.Index.Basic

/-! What an index holds: which branches and which markers stand in which cells, for every index that
can be made. -/

namespace Arbor

theorem mem_eraseReps_loop {γ : Type} [BEq γ] [LawfulBEq γ] {x first : γ} {rest acc : List γ} :
    x ∈ List.eraseRepsBy.loop (· == ·) first rest acc ↔ x ∈ acc ∨ x = first ∨ x ∈ rest := by
  induction rest generalizing first acc with
  | nil => simp [List.eraseRepsBy.loop, or_comm]
  | cons second rest ih =>
    rw [List.eraseRepsBy.loop]
    split
    case h_1 heq =>
      obtain rfl := eq_of_beq heq
      rw [ih, List.mem_cons, ← or_assoc (a := x = first), or_self]
    case h_2 => rw [ih, List.mem_cons, List.mem_cons, or_comm (a := x = first), or_assoc]

/-- Dropping repetitions drops no entry altogether. -/
theorem mem_eraseReps {γ : Type} [BEq γ] [LawfulBEq γ] {x : γ} {list : List γ} :
    x ∈ list.eraseReps ↔ x ∈ list := by
  cases list with
  | nil => rfl
  | cons first rest =>
    rw [List.eraseReps, List.eraseRepsBy, mem_eraseReps_loop, List.mem_cons]
    simp

theorem Grid.mem_around {grid : Grid} {center : Cell} {reach i : Nat} :
    i ∈ grid.around center reach ↔ ∃ cell ∈ center.block reach, i ∈ grid.get cell :=
  List.mem_flatMap

/-- A grid of some entries has in each cell what the entries put there. -/
theorem Grid.mem_get_ofList {entries : List (Cell × Nat)} {cell : Cell} {i : Nat} :
    i ∈ (Grid.ofList entries).get cell ↔ (cell, i) ∈ entries := by
  rw [Grid.get_ofList, List.mem_map]
  constructor
  · rintro ⟨entry, hentry, rfl⟩
    obtain ⟨hmem, hcell⟩ := List.mem_filter.1 hentry
    obtain rfl : entry.1 = cell := of_decide_eq_true hcell
    exact hmem
  · intro h
    exact ⟨(cell, i), List.mem_filter.2 ⟨h, decide_eq_true rfl⟩, rfl⟩

/-- Numbers that come once are stored once. -/
theorem Grid.nodup_get_ofList {entries : List (Cell × Nat)} (h : (entries.map (·.2)).Nodup)
    (cell : Cell) : ((Grid.ofList entries).get cell).Nodup := by
  rw [Grid.get_ofList]
  exact h.sublist (List.filter_sublist.map _)

/-- All entries are those of the occupied cells, one cell after the other. -/
theorem Grid.entries_eq (grid : Grid) : grid.entries = grid.cells.keys.flatMap grid.get := by
  rw [Grid.entries, ← Std.HashMap.map_fst_toList_eq_keys, List.flatMap_map, List.flatMap_def,
    List.flatMap_def]
  apply congrArg List.flatten
  apply List.map_congr_left
  intro entry hentry
  have hstored : grid.cells[entry.1]? = some entry.2 :=
    Std.HashMap.mem_toList_iff_getElem?_eq_some.1 hentry
  rw [Grid.get, hstored, Option.getD_some]

theorem Grid.mem_entries {grid : Grid} {i : Nat} :
    i ∈ grid.entries ↔ ∃ cell, i ∈ grid.get cell := by
  rw [Grid.entries_eq, List.mem_flatMap]
  constructor
  · rintro ⟨cell, -, hi⟩
    exact ⟨cell, hi⟩
  · rintro ⟨cell, hi⟩
    refine ⟨cell, ?_, hi⟩
    -- A cell that holds something is occupied.
    rw [Std.HashMap.mem_keys, Std.HashMap.mem_iff_isSome_getElem?]
    cases hstored : grid.cells[cell]? with
    | some places => rfl
    | none =>
      rw [Grid.get, hstored] at hi
      exact absurd hi (Array.not_mem_empty i ∘ Array.mem_toList_iff.1)

variable {α : Type} [Scalar α]

theorem mem_markerEntries {cellSize : α} {markers : Array (Marker α)} {cell : Cell} {i : Nat} :
    (cell, i) ∈ markerEntries cellSize markers ↔
      ∃ marker, markers[i]? = some marker ∧ Cell.ofPoint cellSize marker.position = cell := by
  rw [markerEntries, List.mem_map]
  constructor
  · rintro ⟨⟨marker, j⟩, hmarker, heq⟩
    obtain ⟨hcell, rfl⟩ := Prod.mk.inj heq
    rw [List.mk_mem_zipIdx_iff_getElem?, Array.getElem?_toList] at hmarker
    exact ⟨marker, hmarker, hcell⟩
  · rintro ⟨marker, hmarker, rfl⟩
    refine ⟨(marker, i), ?_, rfl⟩
    rw [List.mk_mem_zipIdx_iff_getElem?, Array.getElem?_toList]
    exact hmarker

theorem nodup_markerEntries (cellSize : α) (markers : Array (Marker α)) :
    ((markerEntries cellSize markers).map (·.2)).Nodup := by
  have hplaces : (markerEntries cellSize markers).map (·.2) = markers.toList.zipIdx.map (·.2) := by
    rw [markerEntries, List.map_map]
    rfl
  rw [hplaces, List.zipIdx_map_snd]
  exact List.nodup_range'

theorem mem_branchEntries {cellSize : α} {branches : Array (Branch α)} {cell : Cell} {i : Nat} :
    (cell, i) ∈ branchEntries cellSize branches ↔
      ∃ branch, branches[i]? = some branch ∧ cell ∈ Cell.ofBranch cellSize branch := by
  simp only [branchEntries, List.mem_flatMap, List.mem_map]
  constructor
  · rintro ⟨⟨branch, j⟩, hbranch, stored, hstored, heq⟩
    obtain ⟨rfl, rfl⟩ := Prod.mk.inj heq
    rw [List.mk_mem_zipIdx_iff_getElem?, Array.getElem?_toList] at hbranch
    exact ⟨branch, hbranch, hstored⟩
  · rintro ⟨branch, hbranch, hcell⟩
    refine ⟨(branch, i), ?_, cell, hcell, rfl⟩
    rw [List.mk_mem_zipIdx_iff_getElem?, Array.getElem?_toList]
    exact hbranch

namespace SpatialIndex

inductive Reachable : SpatialIndex α → Prop
  | empty (cellSize : α) : Reachable (empty cellSize)
  | build (markers : Array (Marker α)) (branches : Array (Branch α)) (bounds : Option (Box α)) :
    Reachable (build markers branches bounds)
  | ofSkeleton (skeleton : Skeleton α) : Reachable (ofSkeleton skeleton)
  | rebuild {index : SpatialIndex α} (h : Reachable index) (markers : Array (Marker α))
    (branches : Array (Branch α)) (bounds : Option (Box α)) :
    Reachable (index.rebuild markers branches bounds)

/-- In every index, a cell holds the branches that are stored there and no others. -/
theorem mem_branchGrid_get (index : SpatialIndex α) {cell : Cell} {i : Nat} :
    i ∈ index.branchGrid.get cell ↔
      ∃ branch, index.branches[i]? = some branch ∧ cell ∈ Cell.ofBranch index.cellSize branch := by
  rw [index.branchGrid_eq, Grid.mem_get_ofList, mem_branchEntries]

/-- In every index, a cell holds the markers whose places are in it and no others. -/
theorem mem_markerGrid_get (index : SpatialIndex α) {cell : Cell} {i : Nat} :
    i ∈ index.markerGrid.get cell ↔ ∃ marker, index.markers[i]? = some marker ∧
      Cell.ofPoint index.cellSize marker.position = cell := by
  rw [index.markerGrid_eq, Grid.mem_get_ofList, mem_markerEntries]

theorem nodup_markerGrid_get (index : SpatialIndex α) (cell : Cell) :
    (index.markerGrid.get cell).Nodup := by
  rw [index.markerGrid_eq]
  exact Grid.nodup_get_ofList (nodup_markerEntries index.cellSize index.markers) cell

/-- What holds of every usable size and of the default holds of every cell size. -/
theorem Reachable.cellSize_induction {property : α → Prop}
    (husable : ∀ size, property (usableCellSize size)) {index : SpatialIndex α}
    (h : index.Reachable) : property index.cellSize := by
  -- A rebuild computes a usable size or keeps the one it finds.
  have hrebuild {index : SpatialIndex α} (h : property index.cellSize)
      (markers : Array (Marker α)) (branches : Array (Branch α)) (bounds : Option (Box α)) :
      property (index.rebuild markers branches bounds).cellSize := by
    cases bounds with
    | none => exact h
    | some box => exact husable _
  induction h with
  | empty cellSize => exact husable cellSize
  | build markers branches bounds =>
    have hempty : property (SpatialIndex.empty defaultCellSize : SpatialIndex α).cellSize :=
      husable _
    exact hrebuild hempty markers branches bounds
  | ofSkeleton skeleton =>
    have hempty : property (SpatialIndex.empty defaultCellSize : SpatialIndex α).cellSize :=
      husable _
    exact hrebuild hempty skeleton.markers skeleton.branches (some skeleton.bounds)
  | rebuild _ markers branches bounds ih => exact hrebuild ih markers branches bounds

end SpatialIndex

end Arbor
