import Arbor.Index.Nearest
import Arbor.Proofs.Index.Contents
import Arbor.Proofs.Scalar.Order

/-! Which candidate a search is left with. Distances on a machine need not be numbers, and one that
is none compares to nothing: such a candidate beats no other one, nor is it beaten. -/

namespace Arbor

open Scalar (Agree ComparesNumbers IsOrdered isNaN)

namespace Candidate

variable {α β : Type} [Scalar α]

def IsMeasured (c : Candidate α β) : Prop :=
  isNaN c.distance = false

instance (c : Candidate α β) : Decidable c.IsMeasured :=
  inferInstanceAs (Decidable (_ = _))

/-- Whether a candidate is the nearest of those whose distance is a number, the first placed of
those equally near. -/
structure IsFirstNearest (best : Candidate α β) (candidates : List (Candidate α β)) : Prop where
  mem : best ∈ candidates
  isMeasured : best.IsMeasured
  least : ∀ c ∈ candidates, c.IsMeasured →
    best.distance < c.distance ∨ (Agree best.distance c.distance ∧ best.place ≤ c.place)

section ComparesNumbers

variable [ComparesNumbers α] {c best : Candidate α β}

/-- A distance that is no number neither beats another one nor is beaten. -/
theorem Beats.isMeasured (h : c.Beats best) : c.IsMeasured ∧ best.IsMeasured :=
  h.elim ComparesNumbers.isNumber_of_lt fun hle => ComparesNumbers.isNumber_of_le hle.1

/-- A candidate without a measured distance that stands first is left at the end. -/
theorem nearest?_of_not_isMeasured (h : ¬best.IsMeasured) (candidates : List (Candidate α β)) :
    nearest? (best :: candidates) = some best := by
  have hstep (c : Candidate α β) : better (some best) c = some best :=
    if_neg fun hbeats => h hbeats.isMeasured.2
  have hfold : nearest? (best :: candidates) = candidates.foldl better (some best) := rfl
  rw [hfold]
  induction candidates with
  | nil => rfl
  | cons c candidates ih => rw [List.foldl_cons, hstep, ih rfl]

end ComparesNumbers

section IsOrdered

variable [IsOrdered α] {c best : Candidate α β}

/-- A candidate that does not beat another one is no nearer, and if as near not placed before it. -/
theorem not_beats_iff_le (hc : c.IsMeasured) (hbest : best.IsMeasured) :
    ¬c.Beats best ↔
      best.distance ≤ c.distance ∧ (c.distance ≤ best.distance → best.place ≤ c.place) := by
  rw [Beats, not_or, not_and, Nat.not_lt, IsOrdered.lt_iff_not_le hc hbest, not_not]

theorem not_beats_iff_agree (hc : c.IsMeasured) (hbest : best.IsMeasured) :
    ¬c.Beats best ↔ best.distance < c.distance ∨
      (Agree best.distance c.distance ∧ best.place ≤ c.place) := by
  rw [not_beats_iff_le hc hbest, IsOrdered.lt_iff_not_le hbest hc]
  constructor
  · rintro ⟨hle, hplace⟩
    by_cases hge : c.distance ≤ best.distance
    · exact Or.inr ⟨⟨hle, hge⟩, hplace hge⟩
    · exact Or.inl hge
  · rintro (hlt | ⟨hagree, hplace⟩)
    · exact ⟨(IsOrdered.le_total hc hbest).resolve_left hlt, fun hge => absurd hge hlt⟩
    · exact ⟨hagree.1, fun _ => hplace⟩

variable [ComparesNumbers α] {between next : Candidate α β} {candidates : List (Candidate α β)}

/-- No two candidates beat each other. -/
theorem Beats.not_beats (h : c.Beats best) : ¬best.Beats c := by
  obtain ⟨hc, hbest⟩ := h.isMeasured
  rw [not_beats_iff_le hbest hc]
  rcases h with hlt | ⟨hle, hplace⟩
  · exact ⟨IsOrdered.le_of_lt hc hbest hlt,
      fun hge => absurd hge ((IsOrdered.lt_iff_not_le hc hbest).1 hlt)⟩
  · exact ⟨hle, fun _ => hplace.le⟩

theorem not_beats_self (c : Candidate α β) : ¬c.Beats c :=
  fun h => h.not_beats h

/-- Where the distance between is a number, losing to it is passed on. -/
theorem not_beats_trans (hbetween : between.IsMeasured) (h : ¬c.Beats between)
    (h' : ¬between.Beats best) : ¬c.Beats best := by
  intro hbeats
  obtain ⟨hc, hbest⟩ := hbeats.isMeasured
  obtain ⟨hle, hplace⟩ := (not_beats_iff_le hc hbetween).1 h
  obtain ⟨hle', hplace'⟩ := (not_beats_iff_le hbetween hbest).1 h'
  refine (not_beats_iff_le hc hbest).2 ⟨IsOrdered.le_trans hbest hbetween hc hle' hle, ?_⟩ hbeats
  -- If the first and the last are equally far, so is the one between them.
  intro hge
  have hback := IsOrdered.le_trans hbetween hc hbest hle hge
  exact (hplace' hback).trans (hplace (IsOrdered.le_trans hc hbest hbetween hge hle'))

/-- A measured candidate that none of the others beats is the nearest of those measured. -/
theorem isFirstNearest_iff : best.IsFirstNearest candidates ↔
    best ∈ candidates ∧ best.IsMeasured ∧ ∀ c ∈ candidates, ¬c.Beats best := by
  constructor
  · intro h
    refine ⟨h.mem, h.isMeasured, fun c hc hbeats => ?_⟩
    have hmeasured := hbeats.isMeasured.1
    exact (not_beats_iff_agree hmeasured h.isMeasured).2 (h.least c hc hmeasured) hbeats
  · rintro ⟨hmem, hmeasured, hnone⟩
    exact ⟨hmem, hmeasured,
      fun c hc hmeasured' => (not_beats_iff_agree hmeasured' hmeasured).1 (hnone c hc)⟩

/-- Of two candidates that meet, one is left, and the other one does not beat it. -/
theorem exists_better (hbest : best.IsMeasured) (next : Candidate α β) :
    ∃ left, (left = best ∨ left = next) ∧ left.IsMeasured ∧ better (some best) next = some left ∧
      ¬best.Beats left ∧ ¬next.Beats left := by
  by_cases h : next.Beats best
  · exact ⟨next, Or.inr rfl, h.isMeasured.1, if_pos h, h.not_beats, not_beats_self next⟩
  · exact ⟨best, Or.inl rfl, hbest, if_neg h, not_beats_self best, h⟩

/-- Of a measured candidate and others after it, the nearest of those measured is left. -/
theorem exists_foldl_better (hbest : best.IsMeasured) (candidates : List (Candidate α β)) :
    ∃ last, candidates.foldl better (some best) = some last ∧
      last.IsFirstNearest (best :: candidates) := by
  simp only [isFirstNearest_iff]
  induction candidates generalizing best with
  | nil =>
    refine ⟨best, rfl, List.mem_singleton_self best, hbest, ?_⟩
    rw [List.forall_mem_singleton]
    exact not_beats_self best
  | cons next candidates ih =>
    -- Who did not beat the one left of the two does not beat the last one either.
    obtain ⟨left, hleft, hmeasured, hstep, hfirst, hnext⟩ := exists_better hbest next
    obtain ⟨last, hfold, hlast, hlastMeasured, hnone⟩ := ih hmeasured
    rw [List.forall_mem_cons] at hnone
    refine ⟨last, by rw [List.foldl_cons, hstep, hfold], ?_, hlastMeasured, ?_⟩
    · rcases List.mem_cons.1 hlast with rfl | hlast
      · rcases hleft with rfl | rfl
        · exact List.mem_cons_self
        · exact List.mem_cons_of_mem _ List.mem_cons_self
      · exact List.mem_cons_of_mem _ (List.mem_cons_of_mem _ hlast)
    · rw [List.forall_mem_cons, List.forall_mem_cons]
      exact ⟨not_beats_trans hmeasured hfirst hnone.1, not_beats_trans hmeasured hnext hnone.1,
        hnone.2⟩

/-- If the first distance is a number, the search is left with the first nearest of all that are
numbers. -/
theorem exists_nearest?_of_isMeasured (h : best.IsMeasured) (candidates : List (Candidate α β)) :
    ∃ last, nearest? (best :: candidates) = some last ∧
      last.IsFirstNearest (best :: candidates) :=
  exists_foldl_better h candidates

/-- If any candidate is measured there is a nearest one of those, wherever it stands. -/
theorem exists_isFirstNearest (h : ∃ c ∈ candidates, c.IsMeasured) :
    ∃ best : Candidate α β, best.IsFirstNearest candidates := by
  obtain ⟨c, hc, hmeasured⟩ := h
  have hmem : c ∈ candidates.filter fun c => c.IsMeasured :=
    List.mem_filter.2 ⟨hc, decide_eq_true hmeasured⟩
  obtain ⟨first, rest, hfilter⟩ := List.exists_cons_of_ne_nil (List.ne_nil_of_mem hmem)
  have hin : ∀ {c}, c ∈ first :: rest ↔ c ∈ candidates ∧ c.IsMeasured := by
    intro c
    rw [← hfilter, List.mem_filter, decide_eq_true_iff]
  obtain ⟨best, -, hbest⟩ := exists_nearest?_of_isMeasured (hin.1 List.mem_cons_self).2 rest
  exact ⟨best, (hin.1 hbest.mem).1, hbest.isMeasured,
    fun c hc hmeasured => hbest.least c (hin.2 ⟨hc, hmeasured⟩) hmeasured⟩

/-- There is only one place at which the first nearest candidate can be. -/
theorem IsFirstNearest.place_eq {best' : Candidate α β} (h : best.IsFirstNearest candidates)
    (h' : best'.IsFirstNearest candidates) : best.place = best'.place := by
  have hforth := (isFirstNearest_iff.1 h).2.2 best' h'.mem
  have hback := (isFirstNearest_iff.1 h').2.2 best h.mem
  rw [not_beats_iff_le h'.isMeasured h.isMeasured] at hforth
  rw [not_beats_iff_le h.isMeasured h'.isMeasured] at hback
  exact Nat.le_antisymm (hforth.2 hback.1) (hback.2 hforth.1)

/-- The nearest of the measured candidates is left at the end if the first one is measured, unless
another one has its place. -/
theorem IsFirstNearest.nearest?_eq_some (h : best.IsFirstNearest candidates)
    (hfirst : ∀ first ∈ candidates.head?, first.IsMeasured)
    (hplace : ∀ other ∈ candidates, other.place = best.place → other = best) :
    nearest? candidates = some best := by
  obtain ⟨first, rest, rfl⟩ := List.exists_cons_of_ne_nil (List.ne_nil_of_mem h.mem)
  obtain ⟨last, hnearest, hlast⟩ := exists_nearest?_of_isMeasured (hfirst first rfl) rest
  rw [hnearest, hplace last hlast.mem (hlast.place_eq h)]

end IsOrdered

end Candidate

end Arbor
