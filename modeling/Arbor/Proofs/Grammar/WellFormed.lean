import Mathlib.Data.List.Infix
import Arbor.Proofs.Grammar.Passes

/-! Well-formed words: every payload that they open they close, and their brackets outside of
payloads are well nested. Rules whose replacements are well formed keep a word so, however often
they are applied, since what a pass writes for a token leaves as many brackets open as the token
itself. -/

namespace Arbor

namespace Token

/-- Whether the brackets among tokens are well nested: never have more of them closed than opened,
and in the end as many. Those inside of payloads do not count. -/
def AreNested (tokens : List Token) : Prop :=
  (∀ first ∈ tokens.inits, first.count (.symbol ']') ≤ first.count (.symbol '[')) ∧
    tokens.count (.symbol ']') = tokens.count (.symbol '[')

instance (tokens : List Token) : Decidable (AreNested tokens) :=
  inferInstanceAs (Decidable (_ ∧ _))

def levelAfter? (level : Nat) (token : Token) : Option Nat :=
  if token = .symbol '[' then some (level + 1)
  else if token = .symbol ']' then (if level = 0 then none else some (level - 1))
  else some level

def levelBehind? (level : Nat) (tokens : List Token) : Option Nat :=
  tokens.foldlM levelAfter? level

theorem levelBehind?_nil (level : Nat) : levelBehind? level [] = some level := rfl

theorem levelBehind?_cons (level : Nat) (token : Token) (tokens : List Token) :
    levelBehind? level (token :: tokens) =
      (levelAfter? level token).bind fun next => levelBehind? next tokens :=
  List.foldlM_cons

theorem levelBehind?_append (level : Nat) (first second : List Token) :
    levelBehind? level (first ++ second) =
      (levelBehind? level first).bind fun next => levelBehind? next second :=
  List.foldlM_append

theorem levelAfter?_payload (level : Nat) (text : Word) :
    levelAfter? level (.payload text) = some level := by
  simp [levelAfter?]

theorem levelAfter?_symbol {c : Char} (h : c ≠ '[') (h' : c ≠ ']') (level : Nat) :
    levelAfter? level (.symbol c) = some level := by
  simp [levelAfter?, h, h']

/-- A level is reached just where no prefix closes more brackets than are open. -/
theorem levelBehind?_eq_some_iff {level last : Nat} {tokens : List Token} :
    levelBehind? level tokens = some last ↔
      (∀ first ∈ tokens.inits,
        first.count (.symbol ']') ≤ level + first.count (.symbol '[')) ∧
      last + tokens.count (.symbol ']') = level + tokens.count (.symbol '[') := by
  induction tokens generalizing level with
  | nil =>
    rw [levelBehind?_nil, Option.some_inj, eq_comm]
    simp
  | cons token tokens ih =>
    rw [levelBehind?_cons, List.inits_cons, List.forall_mem_cons, List.forall_mem_map]
    simp only [List.count_nil, List.count_cons, beq_iff_eq, Nat.zero_le, true_and, levelAfter?]
    have hdistinct : Token.symbol ']' ≠ .symbol '[' := by decide
    -- The level before the rest is the one before the token, shifted by what the token counts.
    by_cases hopen : token = .symbol '['
    · subst hopen
      simp only [reduceIte, if_neg hdistinct.symm, Option.bind_some, ih]
      refine and_congr (forall₂_congr fun first _ => ?_) ?_ <;> omega
    · by_cases hclose : token = .symbol ']'
      · subst hclose
        simp only [if_neg hdistinct, reduceIte]
        by_cases hlevel : level = 0
        · -- The prefix that ends with this token closes a bracket that is not open.
          rw [if_pos hlevel, Option.bind_none]
          refine iff_of_false nofun fun h => ?_
          have hfirst := h.1 [] ((List.mem_inits _ _).2 List.nil_prefix)
          rw [List.count_nil, List.count_nil] at hfirst
          omega
        · rw [if_neg hlevel, Option.bind_some, ih]
          refine and_congr (forall₂_congr fun first _ => ?_) ?_ <;> omega
      · rw [if_neg hopen, if_neg hclose, Option.bind_some, ih]
        simp only [if_neg hopen, if_neg hclose, Nat.add_zero]

/-- Brackets are well nested if counting them never fails and comes back to none. -/
theorem areNested_iff {tokens : List Token} :
    AreNested tokens ↔ levelBehind? 0 tokens = some 0 := by
  rw [levelBehind?_eq_some_iff, AreNested]
  simp only [Nat.zero_add]

/-- Nested brackets leave those around them as they are. -/
theorem AreNested.levelBehind?_eq {tokens : List Token} (h : AreNested tokens) (level : Nat) :
    levelBehind? level tokens = some level := by
  rw [levelBehind?_eq_some_iff, h.2]
  refine ⟨fun first hfirst => ?_, rfl⟩
  have hle := h.1 first hfirst
  omega

end Token

namespace Word

/-- Whether a word closes every payload that it opens, and its brackets outside of payloads are well
nested. -/
def IsWellFormed (w : Word) : Prop :=
  w.IsSelfContained ∧ Token.AreNested (tokens w)

instance (w : Word) : Decidable w.IsWellFormed :=
  inferInstanceAs (Decidable (_ ∧ _))

/-- The tokens of a self-contained word do not depend on what comes behind it. -/
theorem tokens_append {first : Word} (hfirst : first.IsSelfContained) (second : Word) :
    tokens (first ++ second) = tokens first ++ tokens second := by
  fun_induction tokens first with
  | case1 => rfl
  | case2 c rest payload after hs ih =>
    obtain ⟨hword, hp⟩ := splitPayload?_eq_some_iff.1 hs
    rw [hword, List.append_assoc, tokens_of_split (splitPayload?_enclose hp _),
      ih (hfirst.of_split hs), List.cons_append]
  | case3 c rest hs ih =>
    have hnone := splitPayload?_of_head_ne (hfirst.ne_open hs) (rest ++ second)
    rw [List.cons_append, tokens_cons_of_none hnone, ih hfirst.2, List.cons_append]

end Word

namespace Production

def replacements : Production → List Word
  | fixed replacement => [replacement]
  | stochastic alternatives => alternatives

/-- What a production gives is one of the words that it may give. -/
theorem mem_replacements_of_choose {production : Production} {gen gen' : Generator}
    {replacement : Word} (h : production.choose gen = some (replacement, gen')) :
    replacement ∈ production.replacements := by
  cases production with
  | fixed word =>
    obtain ⟨rfl, -⟩ := Prod.mk.inj (Option.some.inj h)
    exact List.mem_singleton_self _
  | stochastic alternatives =>
    obtain ⟨⟨place, after⟩, -, hplace⟩ := Option.bind_eq_some_iff.1 h
    obtain ⟨word, hword, hpair⟩ := Option.bind_eq_some_iff.1 hplace
    obtain ⟨rfl, -⟩ := Prod.mk.inj (Option.some.inj hpair)
    exact List.mem_of_getElem? hword

end Production

namespace Rules

open Token (levelBehind?)

def AreWellFormed (rules : Rules) : Prop :=
  ∀ entry ∈ rules.entries, ∀ replacement ∈ entry.2.replacements, replacement.IsWellFormed

instance (rules : Rules) : Decidable rules.AreWellFormed :=
  inferInstanceAs (Decidable (∀ entry ∈ rules.entries, _))

variable {rules : Rules} {gen gen' : Generator} {c : Char} {replacement w : Word}

/-- Brackets are never replaced, whatever the rules say of them. -/
theorem not_isStructural_of_replacement?
    (h : rules.replacement? gen c = some (replacement, gen')) : ¬IsStructural c := by
  intro hc
  rw [replacement?, if_pos hc] at h
  cases h

theorem exists_entry_of_replacement?
    (h : rules.replacement? gen c = some (replacement, gen')) :
    ∃ entry ∈ rules.entries, entry.2.choose gen = some (replacement, gen') := by
  rw [replacement?, if_neg (not_isStructural_of_replacement? h)] at h
  obtain ⟨production, hget, hchoose⟩ := Option.bind_eq_some_iff.1 h
  obtain ⟨entry, hentry, rfl⟩ := Option.map_eq_some_iff.1 hget
  exact ⟨entry, List.mem_of_find?_eq_some hentry, hchoose⟩

/-- Well-formed rules replace symbols by well-formed words only. -/
theorem AreWellFormed.isWellFormed_replacement (hrules : rules.AreWellFormed)
    (h : rules.replacement? gen c = some (replacement, gen')) : replacement.IsWellFormed := by
  obtain ⟨entry, hentry, hchoose⟩ := exists_entry_of_replacement? h
  exact hrules entry hentry replacement (Production.mem_replacements_of_choose hchoose)

/-- A pass closes every payload that it opens, if all that it may write in place of a symbol does.
-/
theorem isSelfContained_derive (hrules : ∀ {gen gen' : Generator} {c : Char} {replacement : Word},
      rules.replacement? gen c = some (replacement, gen') → replacement.IsSelfContained)
    (gen : Generator) (hw : w.IsSelfContained) : (rules.derive gen w).1.IsSelfContained := by
  fun_induction Rules.derive rules gen w with
  | case1 => exact trivial
  | case2 gen c rest payload after hs out last hout ih =>
    have hclosed := ih (hw.of_split hs)
    rw [hout] at hclosed
    exact (Word.isSelfContained_enclose payload).append hclosed
  | case3 gen c rest hs replacement next hrep out last hout ih =>
    have hclosed := ih hw.2.takePayload
    rw [hout] at hclosed
    exact (hrules hrep).append hclosed
  | case4 gen c rest hs hrep out last hout ih =>
    have hclosed := ih hw.2
    rw [hout] at hclosed
    exact ⟨fun hc => absurd hc (hw.ne_open hs), hclosed⟩

/-- A payload that is dropped has no brackets in it that count. -/
theorem levelBehind?_dropPayload (level : Nat) (w : Word) :
    levelBehind? level (Word.tokens w.dropPayload) = levelBehind? level (Word.tokens w) := by
  cases hs : Word.splitPayload? w with
  | none => rw [Word.dropPayload_of_none hs]
  | some split =>
    rw [Word.dropPayload_of_split hs, Word.tokens_of_split hs, Token.levelBehind?_cons,
      Token.levelAfter?_payload, Option.bind_some]

/-- A pass leaves as many brackets open as the word it is made over. -/
theorem AreWellFormed.levelBehind?_derive (hrules : rules.AreWellFormed) (gen : Generator)
    (hw : w.IsSelfContained) (level : Nat) :
    levelBehind? level (Word.tokens (rules.derive gen w).1) =
      levelBehind? level (Word.tokens w) := by
  fun_induction Rules.derive rules gen w generalizing level with
  | case1 => rfl
  | case2 gen c rest payload after hs out last hout ih =>
    have hlevel := ih (hw.of_split hs) level
    rw [hout] at hlevel
    have hp := (Word.splitPayload?_eq_some_iff.1 hs).2
    rw [Word.tokens_of_split (Word.splitPayload?_enclose hp out), Word.tokens_of_split hs,
      Token.levelBehind?_cons, Token.levelBehind?_cons, Token.levelAfter?_payload, Option.bind_some,
      Option.bind_some, hlevel]
  | case3 gen c rest hs replacement next hrep out last hout ih =>
    have hlevel := ih hw.2.takePayload level
    rw [hout] at hlevel
    have hword := hrules.isWellFormed_replacement hrep
    have hopen : c ≠ '[' := fun hc => not_isStructural_of_replacement? hrep (Or.inr (Or.inl hc))
    have hclose : c ≠ ']' := fun hc => not_isStructural_of_replacement? hrep (Or.inr (Or.inr hc))
    -- Neither the symbol nor its replacement changes the level, nor does the payload taken along.
    calc levelBehind? level (Word.tokens (replacement ++ out))
        = levelBehind? level (Word.tokens out) := by
          rw [Word.tokens_append hword.1, Token.levelBehind?_append, hword.2.levelBehind?_eq,
            Option.bind_some]
      _ = levelBehind? level (Word.tokens (Word.dropPayload rest)) := hlevel
      _ = levelBehind? level (Word.tokens rest) := levelBehind?_dropPayload level rest
      _ = levelBehind? level (Word.tokens (c :: rest)) := by
          rw [Word.tokens_cons_of_none hs, Token.levelBehind?_cons,
            Token.levelAfter?_symbol hopen hclose, Option.bind_some]
  | case4 gen c rest hs hrep out last hout ih =>
    have hlevel := ih hw.2
    rw [hout] at hlevel
    -- A bracket is copied too, and what comes behind it is read from the level that it leaves.
    rw [Word.tokens_cons_of_none (Word.splitPayload?_of_head_ne (hw.ne_open hs) out),
      Word.tokens_cons_of_none hs, Token.levelBehind?_cons, Token.levelBehind?_cons]
    simp only [hlevel]

/-- A pass of well-formed rules keeps a word well formed. -/
theorem AreWellFormed.isWellFormed_derive (hrules : rules.AreWellFormed) (gen : Generator)
    (hw : w.IsWellFormed) : (rules.derive gen w).1.IsWellFormed := by
  refine ⟨isSelfContained_derive (fun h => (hrules.isWellFormed_replacement h).1) gen hw.1, ?_⟩
  rw [Token.areNested_iff, hrules.levelBehind?_derive gen hw.1, ← Token.areNested_iff]
  exact hw.2

/-- Well-formed rules keep a word well formed, through all passes and whatever they choose. -/
theorem expand_isWellFormed (hrules : rules.AreWellFormed) (hw : w.IsWellFormed) (passes : Nat)
    (gen : Generator) : (rules.expand passes gen w).1.IsWellFormed := by
  induction passes generalizing gen w with
  | zero => exact hw
  | succ passes ih =>
    rw [expand_succ]
    exact ih (hrules.isWellFormed_derive gen hw) _

def thicket : Rules :=
  .ofList [('F', .stochastic ["G[+(])F]".toList, "F[[G]F]".toList, []]),
    ('G', .fixed "X(])".toList), (')', .fixed "[)]".toList)]

/-- Five passes over a word with a bracket in a payload and an empty payload. -/
theorem thicket_expand_isWellFormed :
    thicket.AreWellFormed ∧ Word.IsWellFormed "F([)[F(2)G]()".toList ∧
      (thicket.expand 5 ⟨7⟩ "F([)[F(2)G]()".toList).1.IsWellFormed := by
  have hrules : thicket.AreWellFormed := by decide +kernel
  have hw : Word.IsWellFormed "F([)[F(2)G]()".toList := by decide +kernel
  exact ⟨hrules, hw, expand_isWellFormed hrules hw 5 ⟨7⟩⟩

end Rules

end Arbor
