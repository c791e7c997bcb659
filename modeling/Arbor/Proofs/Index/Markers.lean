import Arbor.Proofs.Index.Block
import Arbor.Proofs.Index.Nearest

/-! The markers of an index as the candidates of a search, in exact arithmetic. A search through the
cells around a point comes upon every marker that the cells reach to, and upon none of them twice.
-/

namespace Arbor

namespace Vector3

theorem distanceSq_eq (p q : Vector3 ℝ) : p.distanceSq q = p.distance q ^ 2 := by
  have hnonneg : 0 ≤ (p - q).lengthSq := by
    rw [lengthSq_eq]
    positivity
  exact (Real.sq_sqrt hnonneg).symm

/-- Squares are compared in place of distances, which makes no difference for a radius that is not
negative. -/
theorem distanceSq_le_iff {p q : Vector3 ℝ} {r : ℝ} (hr : 0 ≤ r) :
    p.distanceSq q ≤ r * r ↔ p.distance q ≤ r := by
  rw [distanceSq_eq, ← sq]
  exact sq_le_sq₀ (distance_nonneg p q) hr

theorem distanceSq_lt_iff {p q : Vector3 ℝ} {r : ℝ} (hr : 0 ≤ r) :
    p.distanceSq q < r * r ↔ p.distance q < r := by
  rw [distanceSq_eq, ← sq]
  exact sq_lt_sq₀ (distance_nonneg p q) hr

end Vector3

/-- A marker as the candidate of a search around a point. Candidates are compared by the squares of
their distances. -/
noncomputable def Marker.candidate (marker : Marker ℝ) (place : Nat) (p : Vector3 ℝ) :
    Candidate ℝ (Marker ℝ) :=
  ⟨place, p.distanceSq marker.position, marker⟩

namespace SpatialIndex

variable {index : SpatialIndex ℝ} {p : Vector3 ℝ} {i reach : Nat} {marker : Marker ℝ}

theorem mem_markerCandidates {places : List Nat} {c : Candidate ℝ (Marker ℝ)} :
    c ∈ index.markerCandidates p places ↔ ∃ i ∈ places, ∃ marker,
      index.markers[i]? = some marker ∧ marker.candidate i p = c := by
  unfold markerCandidates
  rw [List.mem_filterMap]
  exact exists_congr fun i => and_congr_right fun _ => Option.map_eq_some_iff

theorem nodup_markerCandidates {places : List Nat} (h : places.Nodup) :
    (index.markerCandidates p places).Nodup := by
  apply h.filterMap
  -- A candidate names the place that it is made from.
  intro i j c hi hj
  obtain ⟨_, -, rfl⟩ := Option.map_eq_some_iff.1 hi
  obtain ⟨_, -, heq⟩ := Option.map_eq_some_iff.1 hj
  exact (congrArg Candidate.place heq).symm

/-- Each marker is stored in one cell only. -/
theorem nodup_flatMap_markerGrid {α : Type} [Scalar α] (index : SpatialIndex α) {cells : List Cell}
    (h : cells.Nodup) : (cells.flatMap index.markerGrid.get).Nodup := by
  apply nodup_flatMap_of_unique h
  · intro cell _
    exact index.nodup_markerGrid_get cell
  · intro cell cell' i hi hi'
    obtain ⟨marker, hmarker, hcell⟩ := index.mem_markerGrid_get.1 hi
    obtain ⟨marker', hmarker', hcell'⟩ := index.mem_markerGrid_get.1 hi'
    have hsame : marker = marker' := Option.some.inj (hmarker.symm.trans hmarker')
    rw [← hcell, ← hcell', hsame]

theorem nodup_markers_around (index : SpatialIndex ℝ) (center : Cell) (reach : Nat) :
    (index.markerGrid.around center reach).Nodup :=
  index.nodup_flatMap_markerGrid (Cell.nodup_block center reach)

/-- A marker is in one cell only, so it is met once by a look at all cells. -/
theorem nodup_markers_entries {α : Type} [Scalar α] (index : SpatialIndex α) :
    index.markerGrid.entries.Nodup := by
  rw [Grid.entries_eq]
  exact index.nodup_flatMap_markerGrid Std.HashMap.nodup_keys

/-- No marker is missed by a look at all cells. -/
theorem mem_entries_of_getElem? (h : index.markers[i]? = some marker) :
    i ∈ index.markerGrid.entries :=
  Grid.mem_entries.2 ⟨_, index.mem_markerGrid_get.2 ⟨marker, h, rfl⟩⟩

/-- A marker is found by a search through so many cells that its distance is at most their size. -/
theorem mem_around_of_distance_le (h : index.Reachable) (hmarker : index.markers[i]? = some marker)
    (hd : p.distance marker.position ≤ reach * index.cellSize) :
    i ∈ index.markerGrid.around (Cell.ofPoint index.cellSize p) reach := by
  have hcell : Cell.ofPoint index.cellSize marker.position ∈
      (Cell.ofPoint index.cellSize p).block reach :=
    Cell.ofPoint_mem_block h.cellSize_pos (Vector3.within_distance p marker.position) hd
  have hstored : i ∈ index.markerGrid.get (Cell.ofPoint index.cellSize marker.position) :=
    index.mem_markerGrid_get.2 ⟨marker, hmarker, rfl⟩
  exact Grid.mem_around.2 ⟨_, hcell, hstored⟩

end SpatialIndex

end Arbor
