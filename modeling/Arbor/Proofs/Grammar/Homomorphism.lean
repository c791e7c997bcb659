import Arbor.Proofs.Grammar.WellFormed

/-! Derivations of words in two parts. A pass over the first part ends before the second one begins
if neither lets a payload reach across: the first closes each that it opens, and the second does not
start with one. Rules without choices whose replacements have the same two properties keep them
through all passes. -/

namespace Arbor

namespace Word

/-- Whether a word can stand in place of a symbol without a payload reaching across its ends: it is
not empty, closes each payload that it opens and does not start with one. -/
def IsSolid (w : Word) : Prop :=
  w ≠ [] ∧ w.IsSelfContained ∧ w.head? ≠ some '('

instance (w : Word) : Decidable w.IsSolid :=
  inferInstanceAs (Decidable (_ ∧ _))

/-- What stands behind a solid word does not change how it begins. -/
theorem IsSolid.head?_append_ne {w : Word} (h : w.IsSolid) (rest : Word) :
    (w ++ rest).head? ≠ some '(' := by
  rw [List.head?_append_of_ne_nil _ h.1]
  exact h.2.2

end Word

namespace Production

def IsSteady : Production → Prop
  | fixed replacement => replacement.IsSolid
  | stochastic _ => False

instance : (production : Production) → Decidable production.IsSteady
  | fixed replacement => inferInstanceAs (Decidable replacement.IsSolid)
  | stochastic _ => isFalse id

end Production

namespace Rules

def AreSteady (rules : Rules) : Prop :=
  ∀ entry ∈ rules.entries, entry.2.IsSteady

instance (rules : Rules) : Decidable rules.AreSteady :=
  inferInstanceAs (Decidable (∀ entry ∈ rules.entries, _))

variable {rules : Rules} {gen gen' : Generator} {c : Char} {replacement first second w : Word}

/-- A pass goes over the two parts of a word one after the other, if no payload reaches from one
into the other. -/
theorem derive_append (hfirst : first.IsSelfContained) (hsecond : second.head? ≠ some '(') :
    rules.derive gen (first ++ second) =
      ((rules.derive gen first).1 ++ (rules.derive (rules.derive gen first).2 second).1,
        (rules.derive (rules.derive gen first).2 second).2) := by
  have hnone : Word.splitPayload? second = none := Word.splitPayload?_of_head?_ne hsecond
  fun_induction Rules.derive rules gen first with
  | case1 => rfl
  | case2 gen c rest payload after hs out last hout ih =>
    have hsplit : Word.splitPayload? (c :: rest ++ second) = some (payload, after ++ second) := by
      rw [Word.splitPayload?_append hfirst hnone, hs, Option.map_some]
    rw [derive_of_split rules gen hsplit, ih (hfirst.of_split hs), hout, List.append_assoc]
  | case3 gen c rest hs replacement next hrep out last hout ih =>
    -- The payload that the symbol takes away lies within the first part.
    have hdrop : Word.dropPayload (rest ++ second) = Word.dropPayload rest ++ second := by
      rw [Word.dropPayload, Word.takePayload_append hfirst.2 hnone, Word.dropPayload]
    rw [List.cons_append, derive_cons_of_some rules hrep, hdrop, ih hfirst.2.takePayload, hout,
      List.append_assoc]
  | case4 gen c rest hs hrep out last hout ih =>
    have hcopied : Word.splitPayload? (c :: (rest ++ second)) = none :=
      Word.splitPayload?_of_head_ne (hfirst.ne_open hs) _
    rw [List.cons_append, derive_cons_of_none rules hcopied hrep, ih hfirst.2, hout,
      List.cons_append]

/-- Under steady rules replacements are solid and draw nothing. -/
theorem AreSteady.of_replacement? (hrules : rules.AreSteady)
    (h : rules.replacement? gen c = some (replacement, gen')) :
    replacement.IsSolid ∧ gen' = gen := by
  obtain ⟨entry, hentry, hchoose⟩ := exists_entry_of_replacement? h
  have hsteady := hrules entry hentry
  cases hproduction : entry.2 with
  | fixed word =>
    rw [hproduction] at hsteady hchoose
    obtain ⟨rfl, rfl⟩ := Prod.mk.inj (Option.some.inj hchoose)
    exact ⟨hsteady, rfl⟩
  | stochastic alternatives =>
    rw [hproduction] at hsteady
    exact hsteady.elim

/-- Steady rules leave the generator alone. -/
theorem AreSteady.derive_snd (hrules : rules.AreSteady) (gen : Generator) (w : Word) :
    (rules.derive gen w).2 = gen := by
  fun_induction Rules.derive rules gen w with
  | case1 => rfl
  | case2 gen c rest payload after hs out last hout ih => rw [← ih, hout]
  | case3 gen c rest hs replacement next hrep out last hout ih =>
    obtain rfl := (hrules.of_replacement? hrep).2
    rw [← ih, hout]
  | case4 gen c rest hs hrep out last hout ih => rw [← ih, hout]

/-- No pass puts a payload at the front of a word that has none there. -/
theorem AreSteady.head?_derive_ne (hrules : rules.AreSteady) (gen : Generator)
    (hw : w.head? ≠ some '(') : (rules.derive gen w).1.head? ≠ some '(' := by
  cases w with
  | nil => rwa [derive_nil]
  | cons c rest =>
    cases hrep : rules.replacement? gen c with
    | none =>
      rw [derive_cons_of_none rules (Word.splitPayload?_of_head?_ne hw) hrep]
      exact hw
    | some found =>
      rw [derive_cons_of_some rules hrep]
      exact (hrules.of_replacement? hrep).1.head?_append_ne _

/-- Rules that always give the same solid words expand the two parts of a word apart from each
other, if no payload reaches from one into the other. A symbol that they replace, with its payload
if it has one, expands as its replacement does in one pass less. -/
theorem expand_append (hrules : rules.AreSteady) (passes : Nat) (gen : Generator) :
    (∀ first second : Word, first.IsSelfContained → second.head? ≠ some '(' →
      (rules.expand passes gen (first ++ second)).1 =
        (rules.expand passes gen first).1 ++ (rules.expand passes gen second).1) ∧
    ∀ (c : Char) (replacement tail : Word), ¬IsStructural c →
      rules.get? c = some (.fixed replacement) → Word.dropPayload tail = [] →
        (rules.expand (passes + 1) gen (c :: tail)).1 =
          (rules.expand passes gen replacement).1 := by
  constructor
  · intro first second hfirst hsecond
    induction passes generalizing first second with
    | zero => rfl
    | succ passes ih =>
      -- A pass keeps what makes the two parts independent, and the generator.
      have hfirst' : (rules.derive gen first).1.IsSelfContained :=
        isSelfContained_derive (fun h => (hrules.of_replacement? h).1.2.1) gen hfirst
      simp only [expand_succ, derive_append hfirst hsecond, hrules.derive_snd]
      exact ih _ _ hfirst' (hrules.head?_derive_ne gen hsecond)
  · intro c replacement tail hc hget htail
    have hrep : rules.replacement? gen c = some (replacement, gen) := by
      rw [replacement?, if_neg hc, hget]
      rfl
    rw [expand_succ, derive_cons_of_some rules hrep, htail, derive_nil, List.append_nil]

def hedge : Rules :=
  .ofList [('F', .fixed "G(F))F".toList), ('G', .fixed "[+F(2)]".toList),
    (')', .fixed "X(])".toList)]

/-- The word in front has a payload and an empty one, that behind it a `)` which closes neither. -/
theorem hedge_expand_append :
    hedge.AreSteady ∧ Word.IsSelfContained "F(F)()G".toList ∧
      ")(F(2)".toList.head? ≠ some '(' ∧
      (hedge.expand 4 ⟨7⟩ ("F(F)()G".toList ++ ")(F(2)".toList)).1 =
        (hedge.expand 4 ⟨7⟩ "F(F)()G".toList).1 ++ (hedge.expand 4 ⟨7⟩ ")(F(2)".toList).1 ∧
      ¬IsStructural 'F' ∧ hedge.get? 'F' = some (.fixed "G(F))F".toList) ∧
      Word.dropPayload "(2)".toList = [] ∧
      (hedge.expand 5 ⟨7⟩ "F(2)".toList).1 = (hedge.expand 4 ⟨7⟩ "G(F))F".toList).1 := by
  have hrules : hedge.AreSteady := by decide +kernel
  have hfirst : Word.IsSelfContained "F(F)()G".toList := by decide +kernel
  have hsecond : ")(F(2)".toList.head? ≠ some '(' := by decide +kernel
  have hget : hedge.get? 'F' = some (.fixed "G(F))F".toList) := by decide +kernel
  have hF : ¬IsStructural 'F' := by decide
  have htail : Word.dropPayload "(2)".toList = [] := by decide +kernel
  obtain ⟨happend, hsymbol⟩ := expand_append hrules 4 ⟨7⟩
  exact ⟨hrules, hfirst, hsecond, happend _ _ hfirst hsecond, hF, hget, htail,
    hsymbol 'F' _ _ hF hget htail⟩

end Rules

end Arbor
