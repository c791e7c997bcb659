import Arbor.Symbols.Payload

namespace Arbor.Word

/-- Whether every `(` of a word has a `)` behind it. What follows such a word cannot close a payload
that the word opens. -/
def IsSelfContained : Word → Prop
  | [] => True
  | c :: rest => (c = '(' → ')' ∈ rest) ∧ IsSelfContained rest

instance decidableIsSelfContained : (w : Word) → Decidable w.IsSelfContained
  | [] => isTrue trivial
  | c :: rest =>
    have := decidableIsSelfContained rest
    inferInstanceAs (Decidable ((c = '(' → ')' ∈ rest) ∧ IsSelfContained rest))

theorem IsSelfContained.of_append {first second : Word}
    (h : IsSelfContained (first ++ second)) : second.IsSelfContained := by
  induction first with
  | nil => exact h
  | cons c first ih => exact ih h.2

/-- What stands behind a payload closes its own. -/
theorem IsSelfContained.of_split {w payload after : Word} (h : w.IsSelfContained)
    (hs : splitPayload? w = some (payload, after)) : after.IsSelfContained := by
  rw [(splitPayload?_eq_some_iff.1 hs).1] at h
  exact h.of_append

/-- Whatever a word opens is closed by a `)` at its end. -/
theorem isSelfContained_append_close (w : Word) : IsSelfContained (w ++ [')']) := by
  induction w with
  | nil => exact ⟨nofun, trivial⟩
  | cons c rest ih =>
    refine ⟨fun _ => ?_, ih⟩
    exact List.mem_append_right rest (List.mem_singleton_self ')')

/-- Self-contained words one after the other are self-contained. -/
theorem IsSelfContained.append {first second : Word} (hfirst : first.IsSelfContained)
    (hsecond : second.IsSelfContained) : IsSelfContained (first ++ second) := by
  induction first with
  | nil => exact hsecond
  | cons c rest ih => exact ⟨fun hc => List.mem_append_left _ (hfirst.1 hc), ih hfirst.2⟩

theorem isSelfContained_enclose (payload : Word) : (enclose payload).IsSelfContained :=
  isSelfContained_append_close ('(' :: payload)

/-- The `)` that closes a payload stands in the same self-contained word. -/
theorem IsSelfContained.exists_enclose {rest : Word} (h : IsSelfContained ('(' :: rest)) :
    ∃ payload after : Word, '(' :: rest = enclose payload ++ after ∧ ')' ∉ payload := by
  obtain ⟨payload, after, hrest, hp⟩ := List.eq_append_cons_of_mem (h.1 rfl)
  exact ⟨payload, after, by rw [hrest, enclose_append, List.cons_append], hp⟩

/-- A symbol of a self-contained word that begins no payload opens none. -/
theorem IsSelfContained.ne_open {c : Char} {rest : Word} (h : IsSelfContained (c :: rest))
    (hs : splitPayload? (c :: rest) = none) : c ≠ '(' :=
  fun hc => splitPayload?_eq_none_iff.1 hs hc (h.1 hc)

/-- A payload is read up to its first `)`. What it has from there on, with the `)` behind it, is
litter that follows the payload. -/
theorem exists_enclose_append (payload : Word) :
    ∃ first litter : Word, enclose payload = enclose first ++ litter ∧ ')' ∉ first ∧
      litter.IsSelfContained ∧ litter ⊆ payload.dropWhile (· ≠ ')') := by
  by_cases hclose : ')' ∈ payload
  · obtain ⟨first, rest, rfl, hfirst⟩ := List.eq_append_cons_of_mem hclose
    have hopen : ∀ c ∈ first, decide (c ≠ ')') = true := by
      intro c hc
      exact decide_eq_true fun heq => hfirst (heq ▸ hc)
    have hdrop : (first ++ ')' :: rest).dropWhile (· ≠ ')') = ')' :: rest := by
      rw [List.dropWhile_append_of_pos hopen]
      simp
    refine ⟨first, rest ++ [')'], by simp [enclose], hfirst, isSelfContained_append_close rest, ?_⟩
    rw [hdrop]
    intro c hc
    simpa [or_comm] using hc
  · exact ⟨payload, [], (List.append_nil _).symm, hclose, trivial, List.nil_subset _⟩

/-- A payload at the front of a word lies within its self-contained part. -/
theorem splitPayload?_append {first second : Word} (hfirst : first.IsSelfContained)
    (hsecond : splitPayload? second = none) :
    splitPayload? (first ++ second) =
      (splitPayload? first).map fun split => (split.1, split.2 ++ second) := by
  cases first with
  | nil => rw [List.nil_append, hsecond, splitPayload?_nil, Option.map_none]
  | cons c rest =>
    by_cases hc : c = '('
    · subst hc
      obtain ⟨payload, after, hword, hp⟩ := hfirst.exists_enclose
      rw [hword, List.append_assoc, splitPayload?_enclose hp, splitPayload?_enclose hp,
        Option.map_some]
    · rw [List.cons_append, splitPayload?_of_head_ne hc, splitPayload?_of_head_ne hc,
        Option.map_none]

/-- A payload at the front of a self-contained word does not reach beyond it. -/
theorem takePayload_append {first second : Word} (hfirst : first.IsSelfContained)
    (hsecond : splitPayload? second = none) :
    takePayload (first ++ second) = ((takePayload first).1, (takePayload first).2 ++ second) := by
  have h := splitPayload?_append hfirst hsecond
  cases hs : splitPayload? first with
  | none =>
    rw [hs, Option.map_none] at h
    rw [takePayload_of_none h, takePayload_of_none hs]
  | some split =>
    rw [hs, Option.map_some] at h
    rw [takePayload_of_split h, takePayload_of_split hs]

theorem IsSelfContained.takePayload {w : Word} (h : w.IsSelfContained) :
    (takePayload w).2.IsSelfContained := by
  cases hs : splitPayload? w with
  | none => rwa [takePayload_of_none hs]
  | some split =>
    rw [takePayload_of_split hs]
    exact h.of_split hs

end Arbor.Word
