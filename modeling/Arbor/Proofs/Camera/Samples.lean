import Arbor.Proofs.Camera.Phases

/-! The points that a flight's path is drawn through, in exact arithmetic. They are taken at times
that cut the orbit into equal steps and then the approach, so that the beginning, the end of the
orbit and the end of the flight are always among them. -/

namespace Arbor.Flight

section

variable {α : Type} [Scalar α]

/-- An orbit is sampled at both ends, also one that takes no time. -/
theorem orbitSteps_pos (flight : Flight α) (samples : ℕ) : 0 < flight.orbitSteps samples :=
  le_max_left 1 _

theorem approachSteps_pos (samples : ℕ) : 0 < approachSteps samples := by
  rw [approachSteps]
  omega

/-- A path is drawn just if all of its points can be stored. -/
theorem path?_eq_ok_iff [Trig α] (flight : Flight α) (nest : Nest α) (platform : Platform α)
    (samples : ℕ) : flight.path? nest platform samples = .ok (flight.path nest platform samples) ↔
      flight.pointCount samples ≤ maxPoints := by
  have hstorable : maxPoints ≤ maxNat64 := by decide
  rw [path?]
  split_ifs with huncountable hunstorable
  · exact iff_of_false nofun (by omega)
  · exact iff_of_false nofun (by omega)
  · exact iff_of_true rfl (not_lt.1 hunstorable)

/-- The points are counted before any is computed. -/
theorem path?_eq_uncountable_iff [Trig α] (flight : Flight α) (nest : Nest α)
    (platform : Platform α) (samples : ℕ) :
    flight.path? nest platform samples = .error .uncountable ↔
      maxNat64 < flight.pointCount samples := by
  rw [path?]
  split_ifs with huncountable
  · exact iff_of_true rfl huncountable
  · exact iff_of_false nofun huncountable
  · exact iff_of_false nofun huncountable

end

section

variable (flight : Flight ℝ) (samples : ℕ)

/-! ### The times -/

/-- A lap is sampled once at least, and laps below zero count as none. -/
theorem orbitSteps_eq : flight.orbitSteps samples =
    max 1 ⌈((max 1 samples : ℕ) : ℝ) * max flight.laps 0⌉₊ := by
  rw [orbitSteps, Scalar.ceilNat_real, Scalar.maxNum_real, Scalar.zero_real]

/-- An approach has half as many samples as a lap. -/
theorem approachSteps_eq : approachSteps samples = ⌈((max 1 samples : ℕ) : ℝ) / 2⌉₊ := by
  refine eq_of_forall_ge_iff fun k => ?_
  have hcast : ((max 1 samples : ℕ) : ℝ) ≤ k * 2 ↔ max 1 samples ≤ k * 2 := by
    exact_mod_cast Iff.rfl
  rw [Nat.ceil_le, div_le_iff₀ two_pos, hcast, approachSteps]
  omega

theorem orbitDuration_nonneg : 0 ≤ flight.orbitDuration := by
  rw [orbitDuration, Scalar.zero_real]
  split_ifs with h
  · have hlap : (0 : ℝ) ≤ lap := by norm_num [lap]
    exact div_nonneg (mul_nonneg h.2.1.le hlap) h.1.le
  · exact le_rfl

/-- The time of a sample: the steps of the orbit up to it, and those of the approach behind them. -/
noncomputable def sampleTime (i : ℕ) : ℝ :=
  (min i (flight.orbitSteps samples) : ℕ) / (flight.orbitSteps samples : ℝ) *
      flight.orbitDuration +
    (i - flight.orbitSteps samples : ℕ) / (approachSteps samples : ℝ) * max flight.approach 0

/-- The samples of the orbit are evenly spaced. -/
theorem sampleTime_of_le {i : ℕ} (h : i ≤ flight.orbitSteps samples) :
    flight.sampleTime samples i =
      (i : ℝ) / (flight.orbitSteps samples : ℝ) * flight.orbitDuration := by
  rw [sampleTime, min_eq_left h, Nat.sub_eq_zero_of_le h, Nat.cast_zero, zero_div, zero_mul,
    add_zero]

/-- From the end of the orbit on, time goes by in steps of the approach. -/
theorem sampleTime_add (i : ℕ) : flight.sampleTime samples (flight.orbitSteps samples + i) =
    flight.orbitDuration + (i : ℝ) / (approachSteps samples : ℝ) * max flight.approach 0 := by
  have hsteps : (flight.orbitSteps samples : ℝ) ≠ 0 :=
    Nat.cast_ne_zero.2 (flight.orbitSteps_pos samples).ne'
  rw [sampleTime, min_eq_right (Nat.le_add_right _ i), Nat.add_sub_cancel_left, div_self hsteps,
    one_mul]

theorem sampleTime_zero : flight.sampleTime samples 0 = 0 := by
  rw [sampleTime_of_le flight samples (Nat.zero_le _), Nat.cast_zero, zero_div, zero_mul]

/-- The last sample of the orbit is taken where the orbit ends. -/
theorem sampleTime_orbitSteps :
    flight.sampleTime samples (flight.orbitSteps samples) = flight.orbitDuration := by
  have h := flight.sampleTime_add samples 0
  rwa [Nat.add_zero, Nat.cast_zero, zero_div, zero_mul, add_zero] at h

/-- The last sample of all is taken where the flight ends. -/
theorem sampleTime_last :
    flight.sampleTime samples (flight.orbitSteps samples + approachSteps samples) =
      flight.duration := by
  have hsteps : (approachSteps samples : ℝ) ≠ 0 :=
    Nat.cast_ne_zero.2 (approachSteps_pos samples).ne'
  rw [sampleTime_add, div_self hsteps, one_mul, duration_eq]

/-- The samples are taken in the order of their times. -/
theorem monotone_sampleTime : Monotone (flight.sampleTime samples) := by
  intro i j hij
  have horbit := flight.orbitDuration_nonneg
  have happroach := le_max_right flight.approach 0
  have hbefore : (min i (flight.orbitSteps samples) : ℕ) ≤ min j (flight.orbitSteps samples) :=
    min_le_min_right _ hij
  have hbehind : i - flight.orbitSteps samples ≤ j - flight.orbitSteps samples :=
    Nat.sub_le_sub_right hij _
  unfold sampleTime
  gcongr

/-- A point more than there are steps. -/
theorem pointCount_eq : flight.pointCount samples =
    flight.orbitSteps samples + approachSteps samples + 1 := rfl

/-- The two runs of samples are one run, since the approach begins where the orbit ends. -/
theorem sampleTimes_eq : flight.sampleTimes samples =
    (List.range (flight.pointCount samples)).map (flight.sampleTime samples) := by
  rw [pointCount_eq, Nat.add_right_comm, List.range_add, List.map_append, List.map_map, sampleTimes]
  congr 1
  · refine List.map_congr_left fun i hi => ?_
    exact (flight.sampleTime_of_le samples (Nat.le_of_lt_succ (List.mem_range.1 hi))).symm
  · refine List.map_congr_left fun i _ => ?_
    rw [Function.comp_apply, Nat.add_assoc, Nat.add_comm 1 i, sampleTime_add, Scalar.maxNum_real,
      Scalar.zero_real]

theorem length_sampleTimes :
    (flight.sampleTimes samples).length = flight.pointCount samples := by
  rw [sampleTimes_eq, List.length_map, List.length_range]

/-- The times of the path are those of its samples, in order. -/
theorem sampleTimes_getElem? {i : ℕ} (h : i ≤ flight.orbitSteps samples + approachSteps samples) :
    (flight.sampleTimes samples)[i]? = some (flight.sampleTime samples i) := by
  have hlt : i < flight.pointCount samples := Nat.lt_succ_of_le h
  rw [sampleTimes_eq, List.getElem?_map, List.getElem?_range hlt, Option.map_some]

theorem head?_sampleTimes : (flight.sampleTimes samples).head? = some 0 := by
  rw [List.head?_eq_getElem?, sampleTimes_getElem? flight samples (Nat.zero_le _), sampleTime_zero]

theorem getLast?_sampleTimes : (flight.sampleTimes samples).getLast? = some flight.duration := by
  rw [List.getLast?_eq_getElem?, length_sampleTimes, pointCount_eq, Nat.add_sub_cancel,
    sampleTimes_getElem? flight samples le_rfl, sampleTime_last]

/-- Time never goes back from one sample to a later one. -/
theorem pairwise_sampleTimes : (flight.sampleTimes samples).Pairwise (· ≤ ·) := by
  rw [sampleTimes_eq, List.pairwise_map]
  exact List.pairwise_lt_range.imp fun h => flight.monotone_sampleTime samples h.le

/-! ### The points -/

variable [Trig ℝ] (nest : Nest ℝ) (platform : Platform ℝ)

/-- An approach that takes any time leaves from where the orbit ends. -/
theorem position_orbitDuration (h : 0 < flight.approach) :
    (flight.pose nest platform flight.orbitDuration).position =
      orbitPoint nest platform (flight.orbitDuration * flight.speed) flight.orbitDuration := by
  have hahead : flight.orbitDuration < flight.duration := by
    rw [flight.duration_of_approach_pos h]
    exact lt_add_of_pos_right _ h
  rw [flight.position_of_lt_duration nest platform le_rfl hahead, sub_self, approachPoint_zero,
    orbitEnd]

/-- The path of a flight has one point more than there are steps in its orbit and its approach. Its
points are where the camera is at times that never go back, from the beginning of the flight to its
end, and among which is the end of the orbit. So the path goes through the point where the orbit
goes over into the approach, and ends above the nest. It is drawn unless it has too many points to
be stored. -/
theorem path_samples_flight :
    flight.orbitSteps samples = max 1 ⌈((max 1 samples : ℕ) : ℝ) * max flight.laps 0⌉₊ ∧
    approachSteps samples = ⌈((max 1 samples : ℕ) : ℝ) / 2⌉₊ ∧
    (flight.path nest platform samples).length =
      flight.orbitSteps samples + 1 + approachSteps samples ∧
    (flight.path? nest platform samples = .ok (flight.path nest platform samples) ↔
      flight.orbitSteps samples + 1 + approachSteps samples ≤ maxPoints) ∧
    (∃ times : List ℝ,
      flight.path nest platform samples =
        times.map (fun t => (flight.pose nest platform t).position) ∧
      times.Pairwise (· ≤ ·) ∧ times.head? = some 0 ∧
      times[flight.orbitSteps samples]? = some flight.orbitDuration ∧
      times.getLast? = some flight.duration) ∧
    (0 < flight.approach → (flight.path nest platform samples)[flight.orbitSteps samples]? =
      some (orbitPoint nest platform (flight.orbitDuration * flight.speed)
        flight.orbitDuration)) ∧
    (flight.path nest platform samples).getLast? = some (hoverPoint nest) := by
  have hcount : flight.pointCount samples =
      flight.orbitSteps samples + 1 + approachSteps samples := Nat.add_right_comm _ _ 1
  have horbit : (flight.sampleTimes samples)[flight.orbitSteps samples]? =
      some flight.orbitDuration := by
    rw [sampleTimes_getElem? flight samples (Nat.le_add_right _ _), sampleTime_orbitSteps]
  refine ⟨flight.orbitSteps_eq samples, approachSteps_eq samples, ?_, ?_,
    ⟨flight.sampleTimes samples, rfl, flight.pairwise_sampleTimes samples,
      flight.head?_sampleTimes samples, horbit, flight.getLast?_sampleTimes samples⟩,
    fun happroach => ?_, ?_⟩
  · rw [path, List.length_map, length_sampleTimes, hcount]
  · rw [path?_eq_ok_iff, hcount]
  · rw [path, List.getElem?_map, horbit, Option.map_some,
      flight.position_orbitDuration nest platform happroach]
  · rw [path, List.getLast?_map, getLast?_sampleTimes, Option.map_some,
      flight.position_of_duration_le nest platform le_rfl]

end

/-- The standard flight, with so many samples to a lap that the steps come out even. -/
theorem standard_path_samples_flight :
    0 < (standard : Flight ℝ).approach ∧
      (path standard perch .fallback 64).length = 129 ∧
      path? standard perch .fallback 64 = .ok (path standard perch .fallback 64) ∧
      (path standard perch .fallback 64)[96]? = some (orbitPoint perch .fallback
        (orbitDuration standard * standard.speed) (orbitDuration standard)) ∧
      (path standard perch .fallback 64).getLast? = some (hoverPoint perch) := by
  have happroach : 0 < (standard : Flight ℝ).approach := by norm_num [standard]
  have hsamples : ((max 1 64 : ℕ) : ℝ) * max (standard : Flight ℝ).laps 0 = (96 : ℕ) := by
    norm_num [standard]
  obtain ⟨horbit, -, hlength, hdrawn, -, hend, hlast⟩ :=
    path_samples_flight standard 64 perch .fallback
  have hsteps : approachSteps 64 = 32 := rfl
  rw [hsamples, Nat.ceil_natCast] at horbit
  rw [horbit, hsteps] at hlength hdrawn
  rw [horbit] at hend
  exact ⟨happroach, hlength, hdrawn.2 (by decide), hend happroach, hlast⟩

end Arbor.Flight
