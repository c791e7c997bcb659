/-! Payloads of symbols. The grammar and the turtle both split words with `splitPayload?`, so they
agree on where a payload ends. -/

namespace Arbor

abbrev Word := List Char

namespace Word

def enclose (payload : Word) : Word :=
  '(' :: payload ++ [')']

/-- Takes a payload off the front of a word: the text between a `(` that comes first and the next
`)`, with what follows it. -/
def splitPayload? : Word → Option (Word × Word)
  | '(' :: rest =>
    match rest.dropWhile (· ≠ ')') with
    | _ :: after => some (rest.takeWhile (· ≠ ')'), after)
    | [] => none
  | _ => none

def takePayload (w : Word) : Option Word × Word :=
  match splitPayload? w with
  | some (payload, after) => (some payload, after)
  | none => (none, w)

def dropPayload (w : Word) : Word :=
  (takePayload w).2

theorem enclose_append (payload after : Word) :
    enclose payload ++ after = '(' :: payload ++ ')' :: after := by
  simp [enclose]

/-- Splitting loses nothing, and it stops at the first `)`. -/
theorem splitPayload?_eq_some_iff {w payload after : Word} :
    splitPayload? w = some (payload, after) ↔ w = enclose payload ++ after ∧ ')' ∉ payload := by
  rw [enclose_append]
  constructor
  · intro h
    unfold splitPayload? at h
    split at h
    · rename_i rest
      split at h
      · rename_i c tail hd
        -- What is left begins with the symbol that stopped the payload.
        have hc : c = ')' := by
          have := List.head?_dropWhile_not (fun x => decide (x ≠ ')')) rest
          rw [hd] at this
          simpa using this
        obtain ⟨rfl, rfl⟩ : rest.takeWhile (fun x => decide (x ≠ ')')) = payload ∧
            tail = after := by simpa using h
        have happ : rest.takeWhile (fun x => decide (x ≠ ')')) ++
            rest.dropWhile (fun x => decide (x ≠ ')')) = rest := List.takeWhile_append_dropWhile
        rw [hd, hc] at happ
        refine ⟨by rw [List.cons_append, happ], fun hm => ?_⟩
        have hall : (rest.takeWhile (fun x => decide (x ≠ ')'))).all
            (fun x => decide (x ≠ ')')) = true := List.all_takeWhile
        simpa using List.all_eq_true.1 hall _ hm
      · cases h
    · cases h
  · rintro ⟨rfl, hp⟩
    have hall : ∀ x ∈ payload, decide (x ≠ ')') = true := by
      intro x hx
      simpa using fun hxe : x = ')' => hp (hxe ▸ hx)
    have htake : (payload ++ ')' :: after).takeWhile (fun x => decide (x ≠ ')')) = payload := by
      rw [List.takeWhile_append_of_pos hall]; simp
    have hdrop :
        (payload ++ ')' :: after).dropWhile (fun x => decide (x ≠ ')')) = ')' :: after := by
      rw [List.dropWhile_append_of_pos hall]; simp
    simp only [List.cons_append, splitPayload?, hdrop, htake]

/-- A payload without a `)` is split off as it was enclosed. -/
theorem splitPayload?_enclose {payload : Word} (h : ')' ∉ payload) (after : Word) :
    splitPayload? (enclose payload ++ after) = some (payload, after) :=
  splitPayload?_eq_some_iff.2 ⟨rfl, h⟩

@[simp]
theorem splitPayload?_nil : splitPayload? [] = none := rfl

theorem splitPayload?_of_head_ne {c : Char} (h : c ≠ '(') (w : Word) :
    splitPayload? (c :: w) = none := by
  unfold splitPayload?
  split
  · rename_i heq; exact absurd (List.cons.inj heq).1 h
  · rfl

/-- There is no payload where no `(` comes first or none of what follows closes it. -/
theorem splitPayload?_eq_none_iff {c : Char} {rest : Word} :
    splitPayload? (c :: rest) = none ↔ (c = '(' → ')' ∉ rest) := by
  constructor
  · rintro h rfl hm
    obtain ⟨payload, after, rfl, hp⟩ := List.eq_append_cons_of_mem hm
    have hs := splitPayload?_enclose hp after
    rw [enclose_append, List.cons_append] at hs
    simp [h] at hs
  · intro h
    apply Option.eq_none_iff_forall_ne_some.2
    rintro ⟨payload, after⟩ hs
    obtain ⟨hw, -⟩ := splitPayload?_eq_some_iff.1 hs
    rw [enclose_append, List.cons_append, List.cons.injEq] at hw
    exact h hw.1 (by rw [hw.2]; simp)

theorem splitPayload?_of_head?_ne {w : Word} (h : w.head? ≠ some '(') : splitPayload? w = none := by
  cases w with
  | nil => rfl
  | cons c rest => exact splitPayload?_of_head_ne (fun hc => h (congrArg some hc)) rest

theorem length_lt_of_splitPayload? {w payload after : Word}
    (h : splitPayload? w = some (payload, after)) : after.length < w.length := by
  obtain ⟨rfl, -⟩ := splitPayload?_eq_some_iff.1 h
  simp [enclose]; omega

theorem takePayload_of_split {w payload after : Word}
    (h : splitPayload? w = some (payload, after)) : takePayload w = (some payload, after) := by
  rw [takePayload, h]

theorem takePayload_of_none {w : Word} (h : splitPayload? w = none) :
    takePayload w = (none, w) := by
  rw [takePayload, h]

theorem dropPayload_of_split {w payload after : Word}
    (h : splitPayload? w = some (payload, after)) :
    dropPayload w = after := by
  rw [dropPayload, takePayload_of_split h]

theorem dropPayload_of_none {w : Word} (h : splitPayload? w = none) : dropPayload w = w := by
  rw [dropPayload, takePayload_of_none h]

theorem length_takePayload_le (w : Word) : (takePayload w).2.length ≤ w.length := by
  unfold takePayload
  split
  · rename_i h; exact Nat.le_of_lt (length_lt_of_splitPayload? h)
  · exact Nat.le_refl _

theorem length_dropPayload_le (w : Word) : (dropPayload w).length ≤ w.length :=
  length_takePayload_le w

end Word

end Arbor
