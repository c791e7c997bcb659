import Mathlib.Order.WithBot
import Arbor.Proofs.Index.Markers

/-! Searches for the nearest marker in exact arithmetic. The 27 cells around a point hold every
marker that is at most a cell's size away, so a nearest marker at such a distance is found there and
is the nearest of all. -/

namespace Arbor

namespace Vector3

theorem distance_self (p : Vector3 ℝ) : p.distance p = 0 := by
  have hsq : p.distance p ^ 2 = 0 := by
    rw [← distanceSq_eq, distanceSq, lengthSq_eq]
    simp only [x_sub, y_sub, z_sub, sub_self]
    norm_num
  exact pow_eq_zero_iff two_ne_zero |>.1 hsq

theorem eq_of_distance_eq_zero {p q : Vector3 ℝ} (h : p.distance q = 0) : p = q := by
  have hwithin := within_distance p q
  rw [h] at hwithin
  have hcoordinate {a b : ℝ} (hab : |a - b| ≤ 0) : a = b := sub_eq_zero.1 (abs_nonpos_iff.1 hab)
  ext
  · exact hcoordinate hwithin.x_le
  · exact hcoordinate hwithin.y_le
  · exact hcoordinate hwithin.z_le

end Vector3

namespace Candidate

variable {β : Type} {candidates : List (Candidate ℝ β)} {c : Candidate ℝ β}

theorem mem_of_nearest? (h : nearest? candidates = some c) : c ∈ candidates := by
  have hne : candidates ≠ [] := by
    rintro rfl
    have hnone : nearest? ([] : List (Candidate ℝ β)) = none := rfl
    rw [hnone] at h
    exact Option.some_ne_none c h.symm
  obtain ⟨best, hmem, hnearest, -⟩ := exists_nearest? hne
  rw [h] at hnearest
  rwa [Option.some.inj hnearest]

end Candidate

namespace SpatialIndex

structure IsFirstNearest (index : SpatialIndex ℝ) (p : Vector3 ℝ) (place : Nat)
    (marker : Marker ℝ) : Prop where
  getElem?_eq : index.markers[place]? = some marker
  least : ∀ (i : Nat) (other : Marker ℝ), index.markers[i]? = some other →
    p.distance marker.position < p.distance other.position ∨
      (p.distance marker.position = p.distance other.position ∧ place ≤ i)

/-- The nearest marker that is closer than a limit, or the nearest one where there is no limit. -/
noncomputable def nearestMarkerBelow? (index : SpatialIndex ℝ) (p : Vector3 ℝ) :
    WithTop ℝ → Option (Marker ℝ)
  | ⊤ => index.nearestMarker? p
  | (limit : ℝ) => index.nearestMarkerWithin? p limit

noncomputable def candidatesBelow (index : SpatialIndex ℝ) (p : Vector3 ℝ) (limit : WithTop ℝ) :
    List (Candidate ℝ (Marker ℝ)) :=
  (index.nearbyMarkers p).filter fun c => (p.distance c.item.position : WithTop ℝ) < limit

variable {index : SpatialIndex ℝ} {p : Vector3 ℝ} {limit : WithTop ℝ}

/-- Without a limit, the search is that for the nearest marker. -/
@[simp]
theorem nearestMarkerBelow?_top : index.nearestMarkerBelow? p ⊤ = index.nearestMarker? p := rfl

@[simp]
theorem nearestMarkerBelow?_coe (limit : ℝ) :
    index.nearestMarkerBelow? p limit = index.nearestMarkerWithin? p limit := rfl

/-- Markers are compared by the squares of their distances. -/
theorem distance_eq_of_mem_nearbyMarkers {c : Candidate ℝ (Marker ℝ)}
    (hc : c ∈ index.nearbyMarkers p) : c.distance = p.distanceSq c.item.position := by
  obtain ⟨i, -, marker, -, rfl⟩ := mem_markerCandidates.1 hc
  rfl

/-- The search compares squares, which is to compare distances, and knows no limit at infinity. -/
theorem nearestMarkerBelow?_eq (hlimit : 0 ≤ limit) : index.nearestMarkerBelow? p limit =
    (Candidate.nearest? (index.candidatesBelow p limit)).map (·.item) := by
  cases limit with
  | top =>
    have hkeep : ∀ c ∈ index.nearbyMarkers p, Scalar.isFinite c.distance =
        decide ((p.distance c.item.position : WithTop ℝ) < ⊤) := by
      intro c _
      rw [decide_eq_true (WithTop.coe_lt_top _), Scalar.isFinite_real]
    rw [nearestMarkerBelow?_top, nearestMarker?, candidatesBelow, List.filter_congr hkeep]
  | coe limit =>
    have hnonneg : 0 ≤ limit := WithTop.coe_nonneg.1 hlimit
    have hguard : (0.0 : ℝ) ≤ limit := by
      norm_num
      exact hnonneg
    have hkeep : ∀ c ∈ index.nearbyMarkers p, decide (c.distance < limit * limit) =
        decide ((p.distance c.item.position : WithTop ℝ) < limit) := by
      intro c hc
      rw [distance_eq_of_mem_nearbyMarkers hc, decide_eq_decide, WithTop.coe_lt_coe]
      exact Vector3.distanceSq_lt_iff hnonneg
    rw [nearestMarkerBelow?_coe, nearestMarkerWithin?, if_pos hguard, candidatesBelow,
      List.filter_congr hkeep]

/-- The candidates of a search are the nearby markers closer than its limit. -/
theorem mem_candidatesBelow {c : Candidate ℝ (Marker ℝ)} : c ∈ index.candidatesBelow p limit ↔
    c ∈ index.nearbyMarkers p ∧ (p.distance c.item.position : WithTop ℝ) < limit := by
  rw [candidatesBelow, List.mem_filter, decide_eq_true_iff]

theorem item_mem_of_mem_candidatesBelow {c : Candidate ℝ (Marker ℝ)}
    (hc : c ∈ index.candidatesBelow p limit) :
    c.item ∈ index.markers ∧ (p.distance c.item.position : WithTop ℝ) < limit := by
  obtain ⟨hnearby, hlt⟩ := mem_candidatesBelow.1 hc
  obtain ⟨i, -, marker, hmarker, rfl⟩ := mem_markerCandidates.1 hnearby
  exact ⟨Array.mem_of_getElem? hmarker, hlt⟩

/-- No nearby marker beats the first nearest one. -/
theorem IsFirstNearest.not_beats {place : Nat} {marker : Marker ℝ}
    (hfirst : index.IsFirstNearest p place marker) {c : Candidate ℝ (Marker ℝ)}
    (hc : c ∈ index.nearbyMarkers p) : ¬c.Beats (marker.candidate place p) := by
  obtain ⟨i, -, other, hother, rfl⟩ := mem_markerCandidates.1 hc
  have hsq : p.distanceSq marker.position = p.distance marker.position ^ 2 :=
    Vector3.distanceSq_eq _ _
  have hsq' : p.distanceSq other.position = p.distance other.position ^ 2 :=
    Vector3.distanceSq_eq _ _
  have hnonneg : 0 ≤ p.distance marker.position := Vector3.distance_nonneg _ _
  rw [Candidate.not_beats_iff, Marker.candidate, Marker.candidate, hsq, hsq']
  rcases hfirst.least i other hother with hlt | ⟨heq, hle⟩
  · exact Or.inl (pow_lt_pow_left₀ hlt hnonneg two_ne_zero)
  · exact Or.inr ⟨by rw [heq], hle⟩

/-- The nearest marker of all, if it is near enough, is the nearest of those searched. -/
theorem nearestMarkerBelow?_eq_some (h : index.Reachable) (hlimit : 0 ≤ limit) {place : Nat}
    {marker : Marker ℝ} (hfirst : index.IsFirstNearest p place marker)
    (hlt : (p.distance marker.position : WithTop ℝ) < limit)
    (hcell : p.distance marker.position ≤ index.cellSize) :
    index.nearestMarkerBelow? p limit = some marker := by
  have hmarker : index.markers[place]? = some marker := hfirst.getElem?_eq
  have hreach : p.distance marker.position ≤ (1 : ℕ) * index.cellSize := by
    rw [Nat.cast_one, one_mul]
    exact hcell
  -- A marker no farther away than a cell is long stands in one of the cells around.
  have hplace : place ∈ index.markerGrid.around (Cell.ofPoint index.cellSize p) 1 :=
    mem_around_of_distance_le h hmarker hreach
  have hnearby : marker.candidate place p ∈ index.nearbyMarkers p :=
    mem_markerCandidates.2 ⟨place, hplace, marker, hmarker, rfl⟩
  have hnearest : Candidate.nearest? (index.candidatesBelow p limit) =
      some (marker.candidate place p) := by
    apply Candidate.nearest?_eq_some
    · exact mem_candidatesBelow.2 ⟨hnearby, hlt⟩
    · intro c hc hsame
      obtain ⟨hc, -⟩ := mem_candidatesBelow.1 hc
      obtain ⟨i, -, other, hother, rfl⟩ := mem_markerCandidates.1 hc
      obtain rfl : i = place := hsame
      rw [Option.some.inj (hmarker.symm.trans hother)]
    · intro c hc
      exact hfirst.not_beats (mem_candidatesBelow.1 hc).1
  rw [nearestMarkerBelow?_eq hlimit, hnearest, Option.map_some]
  rfl

/-- Where every marker is beyond the limit, nothing is found. -/
theorem nearestMarkerBelow?_eq_none (hlimit : 0 ≤ limit)
    (hfar : ∀ marker ∈ index.markers, ¬(p.distance marker.position : WithTop ℝ) < limit) :
    index.nearestMarkerBelow? p limit = none := by
  have hempty : index.candidatesBelow p limit = [] := by
    rw [List.eq_nil_iff_forall_not_mem]
    intro c hc
    obtain ⟨hmem, hlt⟩ := item_mem_of_mem_candidatesBelow hc
    exact hfar c.item hmem hlt
  rw [nearestMarkerBelow?_eq hlimit, hempty]
  rfl

/-- What is found is a marker closer than the limit. -/
theorem lt_of_nearestMarkerBelow? (hlimit : 0 ≤ limit) {marker : Marker ℝ}
    (h : index.nearestMarkerBelow? p limit = some marker) :
    marker ∈ index.markers ∧ (p.distance marker.position : WithTop ℝ) < limit := by
  rw [nearestMarkerBelow?_eq hlimit] at h
  obtain ⟨c, hc, rfl⟩ := Option.map_eq_some_iff.1 h
  exact item_mem_of_mem_candidatesBelow (Candidate.mem_of_nearest? hc)

/-- The first marker placed at a point is the nearest of all to that point. -/
theorem isFirstNearest_of_find? {first : Marker ℝ}
    (h : index.markers.toList.find? (·.position = p) = some first) :
    ∃ place, index.IsFirstNearest p place first := by
  obtain ⟨hposition, place, hlt, hfirst, hbefore⟩ := List.find?_eq_some_iff_getElem.1 h
  have hposition : first.position = p := of_decide_eq_true hposition
  have hzero : p.distance first.position = 0 := by rw [hposition, Vector3.distance_self]
  refine ⟨place, ?_, ?_⟩
  · rw [← Array.getElem?_toList, List.getElem?_eq_getElem hlt, hfirst]
  · intro i other hother
    rw [hzero]
    rcases (Vector3.distance_nonneg p other.position).lt_or_eq with hpos | heq
    · exact Or.inl hpos
    · refine Or.inr ⟨heq, ?_⟩
      -- Another marker at the same point was not placed earlier.
      by_contra hi
      have hsame : other.position = p := (Vector3.eq_of_distance_eq_zero heq.symm).symm
      rw [← Array.getElem?_toList] at hother
      obtain ⟨hi', rfl⟩ := List.getElem?_eq_some_iff.1 hother
      have hnot := hbefore i (not_le.1 hi)
      rw [decide_eq_true hsame] at hnot
      exact Bool.noConfusion hnot

/-- A search at the place of a marker finds the first marker of that place. -/
theorem nearestMarker?_position (h : index.Reachable) {marker : Marker ℝ}
    (hmem : marker ∈ index.markers) : index.nearestMarker? marker.position =
      index.markers.toList.find? (·.position = marker.position) := by
  have hsome : (index.markers.toList.find? (·.position = marker.position)).isSome := by
    rw [List.find?_isSome]
    exact ⟨marker, Array.mem_toList_iff.2 hmem, decide_eq_true rfl⟩
  obtain ⟨first, hfind⟩ := Option.isSome_iff_exists.1 hsome
  obtain ⟨place, hfirst⟩ := isFirstNearest_of_find? hfind
  have hposition : first.position = marker.position := by
    simpa using List.find?_some hfind
  have hcell : marker.position.distance first.position ≤ index.cellSize := by
    rw [hposition, Vector3.distance_self]
    exact h.cellSize_pos.le
  rw [hfind]
  exact nearestMarkerBelow?_eq_some h le_top hfirst (WithTop.coe_lt_top _) hcell

/-- The search for a marker closer than a limit finds the nearest marker of all, if that one is
closer than the limit and no farther than a cell's size. It finds nothing if no marker is closer
than the limit, and never one that is not. Without a limit it finds, at the point of a marker, the
first one that was placed there. -/
theorem nearestMarkerBelow?_agrees (index : SpatialIndex ℝ) (h : index.Reachable) (p : Vector3 ℝ)
    (limit : WithTop ℝ) (hlimit : 0 ≤ limit) :
    (∀ place marker, index.IsFirstNearest p place marker →
      (p.distance marker.position : WithTop ℝ) < limit →
      p.distance marker.position ≤ index.cellSize →
      index.nearestMarkerBelow? p limit = some marker) ∧
    ((∀ marker ∈ index.markers, ¬(p.distance marker.position : WithTop ℝ) < limit) →
      index.nearestMarkerBelow? p limit = none) ∧
    (∀ marker, index.nearestMarkerBelow? p limit = some marker →
      marker ∈ index.markers ∧ (p.distance marker.position : WithTop ℝ) < limit) ∧
    ∀ marker ∈ index.markers, index.nearestMarkerBelow? marker.position ⊤ =
      index.markers.toList.find? (·.position = marker.position) := by
  refine ⟨?_, nearestMarkerBelow?_eq_none hlimit, ?_, ?_⟩
  · intro place marker hfirst hlt hcell
    exact nearestMarkerBelow?_eq_some h hlimit hfirst hlt hcell
  · intro marker hfound
    exact lt_of_nearestMarkerBelow? hlimit hfound
  · intro marker hmem
    exact nearestMarker?_position h hmem

noncomputable def east : Marker ℝ := ⟨⟨1, 0, 0⟩, "east", .file, 0, 1, ⟨0, 1, 0⟩⟩

noncomputable def west : Marker ℝ := ⟨⟨-1, 0, 0⟩, "west", .file, 0, 1, ⟨0, 1, 0⟩⟩

noncomputable def gate : SpatialIndex ℝ := build #[east, west] #[] none

theorem gate_distance :
    (⟨0, 0, 0⟩ : Vector3 ℝ).distance east.position = 1 ∧
      (⟨0, 0, 0⟩ : Vector3 ℝ).distance west.position = 1 := by
  constructor
  · rw [Vector3.distance, Vector3.length, Vector3.lengthSq_eq, Scalar.sqrt_real]
    norm_num [east]
  · rw [Vector3.distance, Vector3.length, Vector3.lengthSq_eq, Scalar.sqrt_real]
    norm_num [west]

/-- Both markers are as far, and the eastern one was placed first. -/
theorem gate_isFirstNearest : gate.IsFirstNearest ⟨0, 0, 0⟩ 0 east := by
  obtain ⟨heast, hwest⟩ := gate_distance
  refine ⟨rfl, ?_⟩
  intro i other hother
  have hmem : other ∈ [east, west] := Array.mem_toList_iff.2 (Array.mem_of_getElem? hother)
  have hdistance : (⟨0, 0, 0⟩ : Vector3 ℝ).distance other.position = 1 := by
    rcases List.mem_cons.1 hmem with rfl | hmem
    · exact heast
    · obtain rfl := List.mem_singleton.1 hmem
      exact hwest
  rw [heast, hdistance]
  exact Or.inr ⟨rfl, Nat.zero_le i⟩

/-- The eastern marker is found, although the cell of the western one is searched first. -/
theorem gate_nearestMarkerBelow :
    gate.Reachable ∧ (0 : WithTop ℝ) ≤ (2 : ℝ) ∧ gate.IsFirstNearest ⟨0, 0, 0⟩ 0 east ∧
      ((⟨0, 0, 0⟩ : Vector3 ℝ).distance east.position : WithTop ℝ) < (2 : ℝ) ∧
      (⟨0, 0, 0⟩ : Vector3 ℝ).distance east.position ≤ gate.cellSize ∧
      gate.nearestMarkerBelow? ⟨0, 0, 0⟩ (2 : ℝ) = some east := by
  have hreach : gate.Reachable := Reachable.build _ _ _
  have hlimit : (0 : WithTop ℝ) ≤ (2 : ℝ) := WithTop.coe_nonneg.2 zero_le_two
  have hlt : ((⟨0, 0, 0⟩ : Vector3 ℝ).distance east.position : WithTop ℝ) < (2 : ℝ) := by
    rw [gate_distance.1, WithTop.coe_lt_coe]
    exact one_lt_two
  have hcell : (⟨0, 0, 0⟩ : Vector3 ℝ).distance east.position ≤ gate.cellSize := by
    have hsize : gate.cellSize = 5 := cellSize_build_none _ _
    rw [gate_distance.1, hsize]
    norm_num
  have hfound := (nearestMarkerBelow?_agrees gate hreach ⟨0, 0, 0⟩ (2 : ℝ) hlimit).1 0 east
    gate_isFirstNearest hlt hcell
  exact ⟨hreach, hlimit, gate_isFirstNearest, hlt, hcell, hfound⟩

end SpatialIndex

end Arbor
