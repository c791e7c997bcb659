import Arbor.Proofs.Index.Candidates
import Arbor.Proofs.Index.Soundness

/-! The search for the nearest branch where distances need not be numbers, as on a machine with a
branch that reaches to infinity. It finds the nearest branch unless the first one that it meets is
such a branch: no other one beats that, however near. -/

namespace Arbor

open Scalar (ComparesNumbers IsOrdered)

abbrev BranchCandidate (α : Type) := Candidate α (Branch α × Projection α)

namespace Candidate

variable {α : Type}

def hit (c : BranchCandidate α) : BranchHit α :=
  ⟨c.item.1, c.place, c.item.2.ratio, c.distance, c.item.2.point⟩

end Candidate

namespace SpatialIndex

variable {α : Type} [Scalar α]

/-- The branches stored in the cell of a point and in those next to it, in the order in which a
search meets them. -/
def nearbyBranches (index : SpatialIndex α) (p : Vector3 α) : List (BranchCandidate α) :=
  index.branchCandidates p (index.branchGrid.around (Cell.ofPoint index.cellSize p) 1)

variable {index : SpatialIndex α} {p : Vector3 α} {c c' : BranchCandidate α}

theorem nearestBranch?_eq_map_hit (index : SpatialIndex α) (p : Vector3 α) :
    index.nearestBranch? p = (Candidate.nearest? (index.nearbyBranches p)).map Candidate.hit := rfl

/-- The same branch may be met in several cells, but always as the same candidate. -/
theorem eq_of_mem_nearbyBranches (hc : c ∈ index.nearbyBranches p)
    (hc' : c' ∈ index.nearbyBranches p) (hplace : c.place = c'.place) : c = c' := by
  obtain ⟨i, -, hi⟩ := List.mem_filterMap.1 hc
  obtain ⟨j, -, hj⟩ := List.mem_filterMap.1 hc'
  obtain ⟨branch, hbranch, rfl⟩ := Option.map_eq_some_iff.1 hi
  obtain ⟨branch', hbranch', rfl⟩ := Option.map_eq_some_iff.1 hj
  obtain rfl : i = j := hplace
  obtain rfl : branch = branch' := Option.some.inj (hbranch.symm.trans hbranch')
  rfl

/-- A first candidate whose distance is no number is reported, whatever comes behind it. -/
theorem nearestBranch?_of_not_isMeasured [ComparesNumbers α]
    (hfirst : (index.nearbyBranches p).head? = some c) (h : ¬c.IsMeasured) :
    index.nearestBranch? p = some c.hit := by
  obtain ⟨rest, hnearby⟩ := List.head?_eq_some_iff.1 hfirst
  rw [nearestBranch?_eq_map_hit, hnearby, Candidate.nearest?_of_not_isMeasured h, Option.map_some]

/-- A candidate without a measured distance that is met first hides all others. -/
theorem nearestBranch?_ne_of_not_isMeasured [ComparesNumbers α]
    (hfirst : (index.nearbyBranches p).head? = some c) (h : ¬c.IsMeasured) (h' : c'.IsMeasured) :
    index.nearestBranch? p ≠ some c'.hit := by
  intro hfound
  rw [nearestBranch?_of_not_isMeasured hfirst h] at hfound
  have hdistance : c.distance = c'.distance :=
    congrArg BranchHit.distance (Option.some.inj hfound)
  rw [Candidate.IsMeasured, hdistance] at h
  exact h h'

/-- If any branch nearby is at a measured distance, there is one that is the nearest of these, the
first placed of those equally near. The search finds it if and only if the branch that it meets
first is at a measured distance. If not, it finds that branch. -/
theorem nearestBranch?_eq_hit_iff_isMeasured [IsOrdered α] [ComparesNumbers α]
    (index : SpatialIndex α) (p : Vector3 α) (h : ∃ c ∈ index.nearbyBranches p, c.IsMeasured) :
    ∃ first best, (index.nearbyBranches p).head? = some first ∧
      best.IsFirstNearest (index.nearbyBranches p) ∧
      (∀ other : BranchCandidate α,
        other.IsFirstNearest (index.nearbyBranches p) → other = best) ∧
      (index.nearestBranch? p = some best.hit ↔ first.IsMeasured) ∧
      (¬first.IsMeasured → index.nearestBranch? p = some first.hit) := by
  obtain ⟨best, hbest⟩ := Candidate.exists_isFirstNearest h
  have hunique : ∀ other ∈ index.nearbyBranches p, other.place = best.place → other = best :=
    fun other hother => eq_of_mem_nearbyBranches hother hbest.mem
  obtain ⟨first, rest, hnearby⟩ := List.exists_cons_of_ne_nil (List.ne_nil_of_mem hbest.mem)
  have hfirst : (index.nearbyBranches p).head? = some first := by rw [hnearby, List.head?_cons]
  refine ⟨first, best, hfirst, hbest, fun other hother => ?_, ⟨?_, ?_⟩,
    nearestBranch?_of_not_isMeasured hfirst⟩
  · exact hunique other hother.mem (hother.place_eq hbest)
  · intro hfound
    by_contra hmeasured
    exact nearestBranch?_ne_of_not_isMeasured hfirst hmeasured hbest.isMeasured hfound
  · intro hmeasured
    have hhead : ∀ first' ∈ (index.nearbyBranches p).head?, first'.IsMeasured := by
      intro first' hfirst'
      rwa [← Option.some.inj (hfirst.symm.trans hfirst')]
    rw [nearestBranch?_eq_map_hit, hbest.nearest?_eq_some hhead hunique, Option.map_some]

def post : Branch Float32 := ⟨⟨1.0, 1.0, 0.0⟩, ⟨1.0, 2.0, 0.0⟩, 0.1, 0.1, 0, none⟩

def lull : SpatialIndex Float32 := build #[] #[post, ray] none

/-- The post comes first and its distance is a number; that of the branch without an end is none. -/
theorem lull_nearbyBranches :
    (lull.nearbyBranches .unitX).map (fun c => (c.place, decide c.IsMeasured)) =
      [(0, true), (1, false)] := by
  have hplaces : lull.branchGrid.around (Cell.ofPoint lull.cellSize .unitX) 1 = [0, 1] := by
    rw [branchGrid_around]
    decide +kernel
  rw [nearbyBranches, hplaces]
  decide +kernel

/-- Behind the post, a branch without an end does no harm. -/
theorem lull_finds_post :
    (∃ c ∈ lull.nearbyBranches .unitX, c.IsMeasured) ∧
      ∃ best : BranchCandidate Float32, best.IsFirstNearest (lull.nearbyBranches .unitX) ∧
        lull.nearestBranch? .unitX = some best.hit := by
  obtain ⟨c, rest, hnearby, hc, -⟩ := List.map_eq_cons_iff.1 lull_nearbyBranches
  have hmeasured : c.IsMeasured := of_decide_eq_true (Prod.mk.inj hc).2
  have h : ∃ c ∈ lull.nearbyBranches .unitX, c.IsMeasured :=
    ⟨c, hnearby ▸ List.mem_cons_self, hmeasured⟩
  obtain ⟨first, best, hfirst, hbest, -, hiff, -⟩ :=
    nearestBranch?_eq_hit_iff_isMeasured lull .unitX h
  obtain rfl : c = first := by
    rw [hnearby, List.head?_cons] at hfirst
    exact Option.some.inj hfirst
  exact ⟨h, best, hbest, hiff.2 hmeasured⟩

def squall : SpatialIndex Float32 := build #[] #[ray, post] none

theorem squall_nearbyBranches :
    (squall.nearbyBranches .unitX).map (fun c => (c.place, decide c.IsMeasured)) =
      [(0, false), (1, true)] := by
  have hplaces : squall.branchGrid.around (Cell.ofPoint squall.cellSize .unitX) 1 = [0, 1] := by
    rw [branchGrid_around]
    decide +kernel
  rw [nearbyBranches, hplaces]
  decide +kernel

/-- The post is a unit away from the point, and the search finds the branch without an end. -/
theorem squall_hides_post :
    (∃ c ∈ squall.nearbyBranches .unitX, c.IsMeasured) ∧
      (squall.nearestBranch? .unitX).map (·.place) = some 0 ∧
      ¬∃ best : BranchCandidate Float32, best.IsFirstNearest (squall.nearbyBranches .unitX) ∧
        squall.nearestBranch? .unitX = some best.hit := by
  obtain ⟨first, rest, hnearby, hfirst, hrest⟩ := List.map_eq_cons_iff.1 squall_nearbyBranches
  obtain ⟨second, others, hrest, hsecond, -⟩ := List.map_eq_cons_iff.1 hrest
  have hhead : (squall.nearbyBranches .unitX).head? = some first := by
    rw [hnearby, List.head?_cons]
  have hunmeasured : ¬first.IsMeasured := of_decide_eq_false (Prod.mk.inj hfirst).2
  have hmeasured : second.IsMeasured := of_decide_eq_true (Prod.mk.inj hsecond).2
  have hmem : second ∈ squall.nearbyBranches .unitX := by
    rw [hnearby, hrest]
    exact List.mem_cons_of_mem _ List.mem_cons_self
  refine ⟨⟨second, hmem, hmeasured⟩, ?_, ?_⟩
  · rw [nearestBranch?_of_not_isMeasured hhead hunmeasured, Option.map_some]
    exact congrArg some (Prod.mk.inj hfirst).1
  · rintro ⟨best, hbest, hfound⟩
    exact nearestBranch?_ne_of_not_isMeasured hhead hunmeasured hbest.isMeasured hfound

end SpatialIndex

end Arbor
