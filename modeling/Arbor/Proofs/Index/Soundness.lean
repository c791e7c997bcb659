import Arbor.Index.Nearest
import Arbor.Proofs.Index.Markers
import Arbor.Scalar.Binary

/-! What holds of every index, whatever it held before and whatever it is made from. Its cell size
is a positive number of finite size, its grids hold the numbers of its own markers and branches and
nothing else, and a rebuild leaves nothing of the old contents. -/

namespace Arbor

/-- Where each number is found, and found under itself, no number is passed over. -/
theorem map_filterMap_of_found {β : Type} {f : Nat → Option β} {place : β → Nat} {places : List Nat}
    (h : ∀ i ∈ places, ∃ c, f i = some c ∧ place c = i) : (places.filterMap f).map place = places := by
  induction places with
  | nil => rfl
  | cons i places ih =>
    rw [List.forall_mem_cons] at h
    obtain ⟨c, hc, hplace⟩ := h.1
    rw [List.filterMap_cons_some hc, List.map_cons, hplace, ih h.2]

theorem range_size_eq {β : Type} (items : Array β) :
    List.range items.size = items.toList.zipIdx.map (·.2) := by
  rw [List.zipIdx_map_snd, List.range_eq_range', Array.length_toList]

/-- A cell gets as many entries for a branch as there are times that the branch names it. -/
theorem map_filter_pair (cells : List Cell) (i : Nat) (cell : Cell) :
    (((cells.map (·, i)).filter (·.1 = cell)).map (·.2)) = List.replicate (cells.count cell) i := by
  induction cells with
  | nil => rfl
  | cons first cells ih =>
    by_cases h : first = cell
    · simp [h, ih, List.replicate_succ]
    · simp [h, ih]

namespace Grid

def IsTight (grid : Grid) : Prop :=
  ∀ cell, cell ∈ grid.cells ↔ grid.get cell ≠ []

theorem isTight_empty : empty.IsTight := by
  intro cell
  simp [empty, get]

/-- A grid has a cell for what is inserted, and no empty one is made. -/
theorem IsTight.insert {grid : Grid} (h : grid.IsTight) (entry : Cell × Nat) :
    (grid.insert entry).IsTight := by
  intro cell
  rw [get_insert, Grid.insert, Std.HashMap.mem_alter]
  by_cases hcell : entry.1 = cell
  · simp [hcell]
  · simp [hcell, h cell]

theorem IsTight.insertAll {grid : Grid} (h : grid.IsTight) (entries : List (Cell × Nat)) :
    (grid.insertAll entries).IsTight := by
  induction entries generalizing grid with
  | nil => exact h
  | cons entry entries ih => exact ih (h.insert entry)

theorem isTight_ofList (entries : List (Cell × Nat)) : (ofList entries).IsTight :=
  isTight_empty.insertAll entries

end Grid

namespace SpatialIndex

variable {α : Type} [Scalar α]

def IsUsable (size : α) : Prop :=
  Scalar.isFinite size ∧ (0.0 : α) < size

def markerCell? (index : SpatialIndex α) (i : Nat) : Option Cell :=
  index.markers[i]?.map fun marker => Cell.ofPoint index.cellSize marker.position

def branchCells (index : SpatialIndex α) (i : Nat) : List Cell :=
  (index.branches[i]?.map (Cell.ofBranch index.cellSize)).getD []

theorem markerCell?_eq_some_iff {index : SpatialIndex α} {i : Nat} {marker : Marker α}
    (h : index.markers[i]? = some marker) {cell : Cell} :
    index.markerCell? i = some cell ↔ Cell.ofPoint index.cellSize marker.position = cell := by
  rw [markerCell?, h, Option.map_some, Option.some_inj]

theorem branchCells_of_getElem? {index : SpatialIndex α} {i : Nat} {branch : Branch α}
    (h : index.branches[i]? = some branch) :
    index.branchCells i = Cell.ofBranch index.cellSize branch := by
  rw [branchCells, h, Option.map_some, Option.getD_some]

/-- A cell holds the numbers of the markers that lie in it, in ascending order. -/
theorem markerGrid_get (index : SpatialIndex α) (cell : Cell) :
    index.markerGrid.get cell =
      (List.range index.markers.size).filter fun i => index.markerCell? i = some cell := by
  rw [index.markerGrid_eq, Grid.get_ofList, markerEntries, range_size_eq, List.filter_map,
    List.filter_map, List.map_map]
  refine congrArg (List.map Prod.snd) (List.filter_congr ?_)
  rintro ⟨marker, i⟩ hmem
  rw [List.mk_mem_zipIdx_iff_getElem?, Array.getElem?_toList] at hmem
  exact decide_eq_decide.2 (markerCell?_eq_some_iff hmem).symm

/-- A cell holds the number of a branch as often as the cell is one of the branch's. -/
theorem branchGrid_get (index : SpatialIndex α) (cell : Cell) :
    index.branchGrid.get cell = (List.range index.branches.size).flatMap fun i =>
      List.replicate ((index.branchCells i).count cell) i := by
  rw [index.branchGrid_eq, Grid.get_ofList, branchEntries, range_size_eq, List.filter_flatMap,
    List.map_flatMap, List.flatMap_map]
  apply List.flatMap_congr
  rintro ⟨branch, i⟩ hmem
  rw [List.mk_mem_zipIdx_iff_getElem?, Array.getElem?_toList] at hmem
  rw [branchCells_of_getElem? hmem]
  exact map_filter_pair (Cell.ofBranch index.cellSize branch) i cell

/-- A search meets the branches cell by cell, and in each cell in the order they were drawn. -/
theorem branchGrid_around (index : SpatialIndex α) (center : Cell) (reach : Nat) :
    index.branchGrid.around center reach = (center.block reach).flatMap fun cell =>
      (List.range index.branches.size).flatMap fun i =>
        List.replicate ((index.branchCells i).count cell) i :=
  List.flatMap_congr fun cell _ => branchGrid_get index cell

theorem lt_size_of_mem_markerGrid {index : SpatialIndex α} {cell : Cell} {i : Nat}
    (h : i ∈ index.markerGrid.get cell) : i < index.markers.size := by
  rw [markerGrid_get] at h
  exact List.mem_range.1 (List.mem_filter.1 h).1

theorem lt_size_of_mem_branchGrid {index : SpatialIndex α} {cell : Cell} {i : Nat}
    (h : i ∈ index.branchGrid.get cell) : i < index.branches.size := by
  rw [branchGrid_get, List.mem_flatMap] at h
  obtain ⟨j, hj, hi⟩ := h
  rw [(List.mem_replicate.1 hi).2]
  exact List.mem_range.1 hj

/-- Each marker is stored once in all. -/
theorem markers_entries_perm (index : SpatialIndex α) :
    index.markerGrid.entries.Perm (List.range index.markers.size) := by
  rw [List.perm_ext_iff_of_nodup index.nodup_markers_entries List.nodup_range]
  intro i
  rw [Grid.mem_entries, List.mem_range]
  constructor
  · rintro ⟨cell, hi⟩
    exact lt_size_of_mem_markerGrid hi
  · intro hi
    exact ⟨_, index.mem_markerGrid_get.2 ⟨_, Array.getElem?_eq_getElem hi, rfl⟩⟩

/-- A search looks up every marker that it is told to. -/
theorem place_markerCandidates (index : SpatialIndex α) (p : Vector3 α) {places : List Nat}
    (h : ∀ i ∈ places, i < index.markers.size) :
    (index.markerCandidates p places).map (·.place) = places := by
  apply map_filterMap_of_found
  intro i hi
  refine ⟨_, Option.map_eq_some_iff.2 ⟨_, Array.getElem?_eq_getElem (h i hi), rfl⟩, ?_⟩
  rfl

/-- A search looks up every branch that it is told to. -/
theorem place_branchCandidates (index : SpatialIndex α) (p : Vector3 α) {places : List Nat}
    (h : ∀ i ∈ places, i < index.branches.size) :
    (index.branchCandidates p places).map (·.place) = places := by
  apply map_filterMap_of_found
  intro i hi
  refine ⟨_, Option.map_eq_some_iff.2 ⟨_, Array.getElem?_eq_getElem (h i hi), rfl⟩, ?_⟩
  rfl

/-- Whether an index holds what it should and nothing else, so that every search finds what it looks
up. -/
structure IsSound (index : SpatialIndex α) : Prop where
  cellSize_isUsable : IsUsable index.cellSize
  /-- Each marker is stored in its own cell, -/
  marker_cells : ∀ cell, index.markerGrid.get cell =
    (List.range index.markers.size).filter fun i => index.markerCell? i = some cell
  /-- and once in all. -/
  marker_entries : index.markerGrid.entries.Perm (List.range index.markers.size)
  branch_cells : ∀ cell, index.branchGrid.get cell =
    (List.range index.branches.size).flatMap fun i =>
      List.replicate ((index.branchCells i).count cell) i
  markerGrid_isTight : index.markerGrid.IsTight
  branchGrid_isTight : index.branchGrid.IsTight
  /-- No search looks up a marker or a branch that is not there. -/
  nearby_found : ∀ p, (index.nearbyMarkers p).map (·.place) =
    index.markerGrid.around (Cell.ofPoint index.cellSize p) 1
  within_found : ∀ p radius,
    (index.markerCandidates p (index.searchPlaces p radius)).map (·.place) =
      index.searchPlaces p radius
  branches_found : ∀ p,
    let places := index.branchGrid.around (Cell.ofPoint index.cellSize p) 1
    (index.branchCandidates p places).map (·.place) = places

theorem lt_size_of_mem_around {index : SpatialIndex α} {center : Cell} {reach i : Nat}
    (h : i ∈ index.markerGrid.around center reach) : i < index.markers.size := by
  obtain ⟨cell, -, hi⟩ := Grid.mem_around.1 h
  exact lt_size_of_mem_markerGrid hi

/-- A search for the markers within a radius is told of markers only. -/
theorem lt_size_of_mem_searchPlaces {index : SpatialIndex α} {p : Vector3 α} {radius : α} {i : Nat}
    (h : i ∈ index.searchPlaces p radius) : i < index.markers.size := by
  unfold searchPlaces at h
  split at h
  · exact lt_size_of_mem_around h
  · obtain ⟨cell, hi⟩ := Grid.mem_entries.1 h
    exact lt_size_of_mem_markerGrid hi

/-- An index is sound by how it is made, if its cells have a size. -/
theorem isSound_of_isUsable {index : SpatialIndex α} (h : IsUsable index.cellSize) :
    index.IsSound where
  cellSize_isUsable := h
  marker_cells := index.markerGrid_get
  marker_entries := index.markers_entries_perm
  branch_cells := index.branchGrid_get
  markerGrid_isTight := by
    rw [index.markerGrid_eq]
    exact Grid.isTight_ofList _
  branchGrid_isTight := by
    rw [index.branchGrid_eq]
    exact Grid.isTight_ofList _
  nearby_found p := index.place_markerCandidates p fun _ => lt_size_of_mem_around
  within_found p _ := index.place_markerCandidates p fun _ => lt_size_of_mem_searchPlaces
  branches_found p := by
    apply index.place_branchCandidates p
    intro i hi
    obtain ⟨cell, -, hmem⟩ := Grid.mem_around.1 hi
    exact lt_size_of_mem_branchGrid hmem

/-! ### Rebuilding -/

theorem usableCellSize_of_isUsable {size : α} (h : IsUsable size) : usableCellSize size = size :=
  if_pos h

/-- A size of cells is usable, or the default stands in for it. -/
theorem isUsable_usableCellSize (hdefault : IsUsable (defaultCellSize : α)) (size : α) :
    IsUsable (usableCellSize size) := by
  unfold usableCellSize
  split
  case isTrue h => exact h
  case isFalse => exact hdefault

/-- The grids of an index are determined by the rest of it. -/
theorem eq_of_contents {index other : SpatialIndex α} (hsize : index.cellSize = other.cellSize)
    (hmarkers : index.markers = other.markers) (hbranches : index.branches = other.branches) :
    index = other := by
  obtain ⟨size, markers, branches, markerGrid, branchGrid, hmarker, hbranch⟩ := index
  obtain ⟨size', markers', branches', markerGrid', branchGrid', hmarker', hbranch'⟩ := other
  obtain rfl : size = size' := hsize
  obtain rfl : markers = markers' := hmarkers
  obtain rfl : branches = branches' := hbranches
  obtain rfl : markerGrid = markerGrid' := hmarker.trans hmarker'.symm
  obtain rfl : branchGrid = branchGrid' := hbranch.trans hbranch'.symm
  rfl

/-- On the machine the default is a size that cells can have. -/
theorem isUsable_defaultCellSize : IsUsable (defaultCellSize : Float32) := by
  unfold IsUsable
  decide +kernel

/-- Every index is sound, also one over points and bounds that are no numbers. A rebuild with bounds
gives the index that a fresh one with the same contents would be, and a rebuild without bounds the
one that an empty index with the same cells becomes. -/
theorem isSound_of_reachable (index : SpatialIndex Float32) (h : index.Reachable) :
    index.IsSound ∧
      (∀ markers branches box,
        index.rebuild markers branches (some box) = build markers branches (some box)) ∧
      ∀ markers branches, index.rebuild markers branches none =
        (empty index.cellSize).rebuild markers branches none := by
  have husable : IsUsable index.cellSize :=
    h.cellSize_induction fun size => isUsable_usableCellSize isUsable_defaultCellSize size
  refine ⟨isSound_of_isUsable husable, ?_, ?_⟩
  · intro markers branches box
    exact eq_of_contents rfl rfl rfl
  · intro markers branches
    have hsize : (empty index.cellSize).cellSize = index.cellSize :=
      usableCellSize_of_isUsable husable
    exact eq_of_contents hsize.symm rfl rfl

def notNumber : Float32 := 0.0 / 0.0

def endless : Float32 := 1.0 / 0.0

def stray : Marker Float32 :=
  ⟨⟨notNumber, endless, -3.0⟩, "stray", .file, 0, notNumber, .unitY⟩

def ray : Branch Float32 := ⟨.zero, ⟨endless, 0.0, 0.0⟩, 0.1, 0.1, 0, none⟩

def wilderness : SpatialIndex Float32 :=
  ((empty notNumber).rebuild #[stray] #[ray] (some ⟨.zero, ⟨endless, endless, notNumber⟩⟩)).rebuild
    #[stray, stray] #[ray, ray] none

/-- An index over a marker and a branch without finite places, from a size that is no number, is as
good as any. -/
theorem wilderness_isSound :
    wilderness.Reachable ∧ wilderness.IsSound ∧
      wilderness.rebuild #[stray] #[ray] (some .origin) =
        build #[stray] #[ray] (some .origin) ∧
      wilderness.rebuild #[stray] #[ray] none =
        (empty wilderness.cellSize).rebuild #[stray] #[ray] none := by
  have hreach : wilderness.Reachable := ((Reachable.empty _).rebuild _ _ _).rebuild _ _ _
  obtain ⟨hsound, hbounds, hnone⟩ := isSound_of_reachable wilderness hreach
  exact ⟨hreach, hsound, hbounds _ _ _, hnone _ _⟩

end SpatialIndex

end Arbor
