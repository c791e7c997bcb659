import Arbor.Proofs.Index.Markers

/-! Searches for the markers within a radius, in exact arithmetic. Whichever places such a search
looks through, it reports what a look at every marker reports, as long as no place comes twice and
none of a marker within the radius is left out. -/

namespace Arbor

namespace Candidate

/-- Sorting by places undoes a change of order, since no two candidates have the same place. -/
theorem mergeSort_eq {β : Type} {hits scan : List (Candidate ℝ β)} (hperm : hits.Perm scan)
    (hscan : scan.Pairwise (·.place < ·.place)) : hits.mergeSort (·.place ≤ ·.place) = scan := by
  have hplaces : (scan.map (·.place)).Nodup := by
    rw [List.Nodup, List.pairwise_map]
    exact hscan.imp fun hlt => hlt.ne
  have hsame : (hits.mergeSort (·.place ≤ ·.place)).Perm scan :=
    (List.mergeSort_perm hits _).trans hperm
  have hdecided : (hits.mergeSort (·.place ≤ ·.place)).Pairwise
      (fun c c' => decide (c.place ≤ c'.place) = true) := by
    apply List.pairwise_mergeSort
    · intro a b c hab hbc
      rw [decide_eq_true_iff] at hab hbc ⊢
      exact hab.trans hbc
    · intro a b
      rw [Bool.or_eq_true, decide_eq_true_iff, decide_eq_true_iff]
      exact le_total a.place b.place
  have hsorted : (hits.mergeSort (·.place ≤ ·.place)).Pairwise (·.place ≤ ·.place) :=
    hdecided.imp fun hle => of_decide_eq_true hle
  -- Two sorted lists of the same candidates differ at most in the order of equal places.
  have hantisymm : ∀ a b : Candidate ℝ β, a ∈ hits.mergeSort (·.place ≤ ·.place) → b ∈ scan →
      a.place ≤ b.place → b.place ≤ a.place → a = b := by
    intro a b ha hb hab hba
    have heq : a.place = b.place := le_antisymm hab hba
    exact List.inj_on_of_nodup_map hplaces (hsame.subset ha) hb heq
  exact List.Perm.eq_of_pairwise hantisymm hsorted (hscan.imp fun hlt => hlt.le) hsame

end Candidate

namespace SpatialIndex

noncomputable def reported (index : SpatialIndex ℝ) (p : Vector3 ℝ) (radius : ℝ)
    (places : List Nat) : List (Marker ℝ) :=
  let hits := (index.markerCandidates p places).filter (·.distance ≤ radius * radius)
  (hits.mergeSort (·.place ≤ ·.place)).map (·.item)

/-- The markers at most `radius` away, by a look at each of them. -/
noncomputable def scanned (index : SpatialIndex ℝ) (p : Vector3 ℝ) (radius : ℝ) :
    List (Marker ℝ) :=
  index.markers.toList.filter (p.distance ·.position ≤ radius)

variable {index : SpatialIndex ℝ} {p : Vector3 ℝ} {radius : ℝ}

theorem markersWithin_of_nonneg (hradius : 0 ≤ radius) :
    index.markersWithin p radius = index.reported p radius (index.searchPlaces p radius) := by
  have hguard : (0.0 : ℝ) ≤ radius := by
    norm_num
    exact hradius
  exact if_pos hguard

/-- No marker is within a negative radius. -/
theorem markersWithin_of_neg (hradius : radius < 0) : index.markersWithin p radius = [] := by
  have hguard : ¬(0.0 : ℝ) ≤ radius := by
    norm_num
    exact hradius
  exact if_neg hguard

noncomputable def markerScan (index : SpatialIndex ℝ) (p : Vector3 ℝ) :
    List (Candidate ℝ (Marker ℝ)) :=
  index.markers.toList.zipIdx.map fun entry => entry.1.candidate entry.2 p

/-- A look at each marker misses none and makes none up. -/
theorem mem_markerScan {c : Candidate ℝ (Marker ℝ)} : c ∈ index.markerScan p ↔
    ∃ i, ∃ marker : Marker ℝ, index.markers[i]? = some marker ∧ marker.candidate i p = c := by
  rw [markerScan, List.mem_map]
  constructor
  · rintro ⟨⟨marker, i⟩, hmem, rfl⟩
    rw [List.mk_mem_zipIdx_iff_getElem?, Array.getElem?_toList] at hmem
    exact ⟨i, marker, hmem, rfl⟩
  · rintro ⟨i, marker, hmarker, rfl⟩
    refine ⟨(marker, i), ?_, rfl⟩
    rw [List.mk_mem_zipIdx_iff_getElem?, Array.getElem?_toList]
    exact hmarker

/-- The markers are looked at in the order they were placed. -/
theorem markerScan_pairwise (index : SpatialIndex ℝ) (p : Vector3 ℝ) :
    (index.markerScan p).Pairwise (·.place < ·.place) := by
  rw [markerScan, List.pairwise_map]
  have hplaces : (index.markers.toList.zipIdx.map (·.2)).Pairwise (· < ·) := by
    rw [List.zipIdx_map_snd]
    exact List.pairwise_lt_range' 1
  exact List.pairwise_map.1 hplaces

theorem nodup_markerScan (index : SpatialIndex ℝ) (p : Vector3 ℝ) : (index.markerScan p).Nodup := by
  apply (index.markerScan_pairwise p).imp
  rintro c c' hlt rfl
  exact lt_irrefl _ hlt

/-- Comparing squares gives the markers that a comparison of distances gives. -/
theorem map_item_markerScan (hradius : 0 ≤ radius) :
    (((index.markerScan p).filter (·.distance ≤ radius * radius)).map (·.item)) =
      index.scanned p radius := by
  have hentries : index.markers.toList = index.markers.toList.zipIdx.map (·.1) :=
    (List.zipIdx_map_fst 0 _).symm
  rw [scanned, hentries, markerScan, List.filter_map, List.filter_map, List.map_map]
  congr 1
  apply List.filter_congr
  intro entry _
  exact decide_eq_decide.2 (Vector3.distanceSq_le_iff hradius)

/-- A search that comes upon each marker within the radius, and upon no marker twice, reports what
a look at every marker reports. -/
theorem reported_eq_scanned (hradius : 0 ≤ radius) {places : List Nat} (hplaces : places.Nodup)
    (hcover : ∀ i marker, index.markers[i]? = some marker →
      p.distance marker.position ≤ radius → i ∈ places) :
    index.reported p radius places = index.scanned p radius := by
  have hperm : ((index.markerCandidates p places).filter (·.distance ≤ radius * radius)).Perm
      ((index.markerScan p).filter (·.distance ≤ radius * radius)) := by
    rw [List.perm_ext_iff_of_nodup ((nodup_markerCandidates hplaces).filter _)
      ((index.nodup_markerScan p).filter _)]
    intro c
    rw [List.mem_filter, List.mem_filter, mem_markerCandidates, mem_markerScan]
    -- A marker that is near enough to be a hit has its place among those looked at.
    constructor
    · rintro ⟨⟨i, -, marker, hmarker, rfl⟩, hnear⟩
      exact ⟨⟨i, marker, hmarker, rfl⟩, hnear⟩
    · rintro ⟨⟨i, marker, hmarker, rfl⟩, hnear⟩
      have hd : p.distance marker.position ≤ radius :=
        (Vector3.distanceSq_le_iff hradius).1 (of_decide_eq_true hnear)
      exact ⟨⟨i, hcover i marker hmarker hd, marker, hmarker, rfl⟩, hnear⟩
  have hsorted : ((index.markerScan p).filter (·.distance ≤ radius * radius)).Pairwise
      (·.place < ·.place) := (index.markerScan_pairwise p).filter _
  rw [reported, Candidate.mergeSort_eq hperm hsorted]
  exact map_item_markerScan hradius

/-- The block that a search takes reaches over the whole radius. -/
theorem radius_le_reach_mul (h : index.Reachable) :
    radius ≤ Scalar.ceilNat (radius / index.cellSize) * index.cellSize := by
  rw [Scalar.ceilNat_real, ← div_le_iff₀ h.cellSize_pos]
  exact Nat.le_ceil _

/-- A search through the block that covers the radius reports what a look at each marker does. -/
theorem reported_block_eq_scanned (h : index.Reachable) (hradius : 0 ≤ radius) :
    index.reported p radius (index.markerGrid.around (Cell.ofPoint index.cellSize p)
      (Scalar.ceilNat (radius / index.cellSize))) = index.scanned p radius := by
  apply reported_eq_scanned hradius (index.nodup_markers_around _ _)
  intro i marker hmarker hd
  exact mem_around_of_distance_le h hmarker (hd.trans (radius_le_reach_mul h))

/-- A search through all cells reports what a look at each marker does. -/
theorem reported_entries_eq_scanned (hradius : 0 ≤ radius) :
    index.reported p radius index.markerGrid.entries = index.scanned p radius := by
  apply reported_eq_scanned hradius index.nodup_markers_entries
  intro i marker hmarker _
  exact mem_entries_of_getElem? hmarker

/-- Whether there are cells enough for a block or not, the search reports the markers within the
radius, each once and in the order they were placed. It reports none within a negative radius. -/
theorem markersWithin_eq_scanned (index : SpatialIndex ℝ) (h : index.Reachable) (p : Vector3 ℝ)
    (radius : ℝ) :
    (0 ≤ radius →
      index.markersWithin p radius = index.scanned p radius ∧
      index.reported p radius (index.markerGrid.around (Cell.ofPoint index.cellSize p)
        (Scalar.ceilNat (radius / index.cellSize))) = index.scanned p radius ∧
      index.reported p radius index.markerGrid.entries = index.scanned p radius) ∧
    (radius < 0 → index.markersWithin p radius = []) := by
  refine ⟨?_, markersWithin_of_neg⟩
  intro hradius
  have hblock : index.reported p radius (index.markerGrid.around (Cell.ofPoint index.cellSize p)
      (Scalar.ceilNat (radius / index.cellSize))) = index.scanned p radius :=
    reported_block_eq_scanned h hradius
  have hall : index.reported p radius index.markerGrid.entries = index.scanned p radius :=
    reported_entries_eq_scanned hradius
  refine ⟨?_, hblock, hall⟩
  rw [markersWithin_of_nonneg hradius, searchPlaces]
  -- The number of occupied cells decides which of the two is searched.
  unfold searchReach?
  dsimp only
  split_ifs
  · exact hblock
  · exact hall

noncomputable def camp : Marker ℝ := ⟨⟨0, 0, 0⟩, "camp", .file, 0, 1, ⟨0, 1, 0⟩⟩

noncomputable def beacon : Marker ℝ := ⟨⟨100000000000, 0, 0⟩, "beacon", .file, 0, 1, ⟨0, 1, 0⟩⟩

noncomputable def outpost : SpatialIndex ℝ := build #[camp, beacon] #[] none

theorem outpost_scanned : outpost.scanned ⟨100000000000, 0, 0⟩ 1 = [beacon] := by
  have hcamp : ¬(⟨100000000000, 0, 0⟩ : Vector3 ℝ).distance camp.position ≤ 1 := by
    rw [← Vector3.distanceSq_le_iff zero_le_one, Vector3.distanceSq, Vector3.lengthSq_eq]
    norm_num [camp]
  have hbeacon : (⟨100000000000, 0, 0⟩ : Vector3 ℝ).distance beacon.position ≤ 1 := by
    rw [← Vector3.distanceSq_le_iff zero_le_one, Vector3.distanceSq, Vector3.lengthSq_eq]
    norm_num [beacon]
  have hmarkers : outpost.markers.toList = [camp, beacon] := rfl
  rw [scanned, hmarkers, List.filter_cons_of_neg, List.filter_cons_of_pos, List.filter_nil]
  · exact decide_eq_true hbeacon
  · exact fun h => hcamp (of_decide_eq_true h)

/-- The marker is found from a point in the last cell, where places are cut off. -/
theorem outpost_markersWithin :
    outpost.Reachable ∧ (0 : ℝ) ≤ 1 ∧ outpost.markersWithin ⟨100000000000, 0, 0⟩ 1 = [beacon] ∧
      (-1 : ℝ) < 0 ∧ outpost.markersWithin ⟨100000000000, 0, 0⟩ (-1) = [] := by
  have hreach : outpost.Reachable := Reachable.build _ _ _
  have hone : (0 : ℝ) ≤ 1 := zero_le_one
  have hneg : (-1 : ℝ) < 0 := by norm_num
  obtain ⟨hfound, -, -⟩ := (markersWithin_eq_scanned outpost hreach ⟨100000000000, 0, 0⟩ 1).1 hone
  have hnone := (markersWithin_eq_scanned outpost hreach ⟨100000000000, 0, 0⟩ (-1)).2 hneg
  exact ⟨hreach, hone, hfound.trans outpost_scanned, hneg, hnone⟩

end SpatialIndex

end Arbor
