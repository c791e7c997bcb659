import Arbor.Grammar.Derivation
import Arbor.Proofs.Generator.Draws
import Arbor.Proofs.Grammar.Tokens
import Arbor.Proofs.Symbols.SelfContained

/-! What a derivation does, said token by token. The output of a token depends on the tokens before
it alone: on the last of them, and on how many of them were choices. -/

namespace Arbor

namespace Production

def nth (gen : Generator) (n : Nat) : Production → Word
  | fixed replacement => replacement
  | stochastic alternatives =>
    match (gen.after n).pick alternatives.length with
    | some (place, _) => alternatives.getD place []
    | none => []

/-- A choice is always one of the alternatives. -/
theorem nth_stochastic_mem {alternatives : List Word} (h : alternatives ≠ []) (gen : Generator)
    (n : Nat) : (stochastic alternatives).nth gen n ∈ alternatives := by
  have hlen : alternatives.length ≠ 0 := fun hz => h (List.length_eq_zero_iff.1 hz)
  have hlt := Generator.share_lt hlen (gen.after n).next.1
  have hget : (stochastic alternatives).nth gen n =
      alternatives[Generator.share alternatives.length (gen.after n).next.1] := by
    rw [nth, Generator.pick_of_ne_zero _ hlen]
    exact List.getElem_eq_getD [] |>.symm
  rw [hget]
  exact List.getElem_mem hlt

end Production

namespace Rules

/-- The production that a pass applies to a symbol. There is none for a structural symbol, and one
without alternatives does not count. -/
def active? (rules : Rules) (c : Char) : Option Production :=
  if IsStructural c then none else (rules.get? c).filter (· ≠ .stochastic [])

def replaces (rules : Rules) : Token → Bool
  | .payload _ => false
  | .symbol c => (rules.active? c).isSome

def chooses (rules : Rules) : Token → Bool
  | .payload _ => false
  | .symbol c => (rules.active? c).any (·.isStochastic)

def choices (rules : Rules) (w : Word) : Nat :=
  (Word.tokens w).countP rules.chooses

def output (rules : Rules) (gen : Generator) (drawn : Nat) (before : List Token) :
    Token → Word
  | .payload text => if before.getLast?.any rules.replaces then [] else Word.enclose text
  | .symbol c =>
    match rules.active? c with
    | none => [c]
    | some production => production.nth gen (drawn + before.countP rules.chooses)

def outputs (rules : Rules) (gen : Generator) (drawn : Nat) (before tokens : List Token) : Word :=
  tokens.zipIdx.flatMap fun (token, i) => rules.output gen drawn (before ++ tokens.take i) token

def pass (rules : Rules) (gen : Generator) (drawn : Nat) (w : Word) : Word :=
  rules.outputs gen drawn [] (Word.tokens w)

/-- The word after a number of passes, and how many choices they made. -/
def history (rules : Rules) (gen : Generator) (w : Word) : Nat → Word × Nat
  | 0 => (w, 0)
  | passes + 1 =>
    let (v, drawn) := rules.history gen w passes
    (rules.pass gen drawn v, drawn + rules.choices v)

theorem outputs_nil (rules : Rules) (gen : Generator) (drawn : Nat) (before : List Token) :
    rules.outputs gen drawn before [] = [] := rfl

theorem outputs_cons (rules : Rules) (gen : Generator) (drawn : Nat) (before : List Token)
    (token : Token) (tokens : List Token) :
    rules.outputs gen drawn before (token :: tokens) =
      rules.output gen drawn before token ++
        rules.outputs gen drawn (before ++ [token]) tokens := by
  simp only [outputs, List.zipIdx_cons', List.flatMap_cons, List.flatMap_map, List.take_zero,
    List.append_nil, Prod.map_fst, Prod.map_snd, id_eq, List.take_succ_cons, List.append_assoc,
    List.singleton_append]

/-- A chosen replacement is the pick whose turn it is, and a choice takes one draw. -/
theorem choose_after {production : Production} (h : production ≠ .stochastic []) (gen : Generator)
    (n : Nat) :
    production.choose (gen.after n) =
      some (production.nth gen n, gen.after (n + if production.isStochastic then 1 else 0)) := by
  cases production with
  | fixed replacement => rfl
  | stochastic alternatives =>
    have hlen : alternatives.length ≠ 0 := by
      simpa [List.length_eq_zero_iff] using h
    have hlt := Generator.share_lt hlen (gen.after n).next.1
    simp [Production.choose, Production.nth, Production.isStochastic,
      Generator.pick_of_ne_zero _ hlen, hlt, Generator.after_succ]

/-- A replacement behind so many choices, and how far it takes the generator. -/
theorem replacement?_after (rules : Rules) (gen : Generator) (n : Nat) (c : Char) :
    rules.replacement? (gen.after n) c =
      (rules.active? c).map fun production =>
        (production.nth gen n, gen.after (n + if production.isStochastic then 1 else 0)) := by
  unfold replacement? active?
  split
  · rfl
  · cases hp : rules.get? c with
    | none => rfl
    | some production =>
      by_cases hne : production = .stochastic []
      · simp [hne, Option.filter_some, Production.choose_stochastic_nil]
      · simp [hne, Option.filter_some, choose_after hne gen n]

theorem replacement?_of_active? {rules : Rules} {c : Char} {production : Production}
    (h : rules.active? c = some production) (gen : Generator) (n : Nat) :
    rules.replacement? (gen.after n) c =
      some (production.nth gen n,
        gen.after (n + if rules.chooses (.symbol c) then 1 else 0)) := by
  simp [replacement?_after, h, chooses]

/-- A symbol without a production to apply stays. -/
theorem replacement?_of_inactive {rules : Rules} {c : Char} (h : rules.active? c = none)
    (gen : Generator) (n : Nat) : rules.replacement? (gen.after n) c = none := by
  simp [replacement?_after, h]

/-- No choice is made in a payload. -/
theorem countP_chooses_payload (rules : Rules) (before : List Token) (text : Word) :
    (before ++ [Token.payload text]).countP rules.chooses = before.countP rules.chooses := by
  rw [List.countP_append, List.countP_singleton, if_neg (by simp [chooses]), Nat.add_zero]

/-- A derivation writes what a pass writes, token by token, wherever it starts: a payload at the
front of the rest of the word never stands behind a replaced symbol, since that symbol took it
away. -/
theorem derive_eq_outputs (rules : Rules) (gen : Generator) (drawn : Nat) (w : Word) :
    ∀ before : List Token,
      (before.getLast?.any rules.replaces → Word.splitPayload? w = none) →
      rules.derive (gen.after (drawn + before.countP rules.chooses)) w =
        (rules.outputs gen drawn before (Word.tokens w),
          gen.after (drawn + (before ++ Word.tokens w).countP rules.chooses)) := by
  induction h : w.length using Nat.strongRecOn generalizing w with
  | ind n ih =>
    subst h
    intro before hready
    cases w with
    | nil => simp [outputs_nil]
    | cons c rest =>
      have hlt : rest.length < (c :: rest).length := Nat.lt_succ_self _
      cases hs : Word.splitPayload? (c :: rest) with
      | some split =>
        obtain ⟨payload, after⟩ := split
        -- The payload is copied: a replaced symbol before it would have taken it away.
        have hlast : ¬before.getLast?.any rules.replaces := by
          intro hb
          simp [hready hb] at hs
        have hrest := ih after.length (Word.length_lt_of_splitPayload? hs) after rfl
          (before ++ [.payload payload]) (by simp [replaces])
        rw [countP_chooses_payload] at hrest
        rw [derive_of_split rules _ hs, hrest, Word.tokens_of_split hs, outputs_cons, output,
          if_neg hlast, List.append_assoc, List.singleton_append]
      | none =>
        rw [Word.tokens_cons_of_none hs, outputs_cons]
        cases hc : rules.active? c with
        | none =>
          -- The symbol is copied, and no word is drawn.
          have hcount : (before ++ [Token.symbol c]).countP rules.chooses =
              before.countP rules.chooses := by
            rw [List.countP_append, List.countP_singleton, if_neg (by simp [chooses, hc]),
              Nat.add_zero]
          have hrest := ih rest.length hlt rest rfl (before ++ [.symbol c])
            (by simp [replaces, hc])
          rw [hcount] at hrest
          rw [derive_cons_of_none rules hs (replacement?_of_inactive hc gen _), hrest]
          simp [output, hc]
        | some production =>
          -- The symbol is replaced, and the payload behind it, if there is one, is dropped.
          have hrep := replacement?_of_active? hc gen (drawn + before.countP rules.chooses)
          rw [Nat.add_assoc, ← List.countP_singleton, ← List.countP_append] at hrep
          rw [derive_cons_of_some rules hrep]
          cases hd : Word.splitPayload? rest with
          | none =>
            have hrest := ih rest.length hlt rest rfl (before ++ [.symbol c]) (fun _ => hd)
            rw [Word.dropPayload_of_none hd, hrest]
            simp [output, hc]
          | some split =>
            obtain ⟨payload, after⟩ := split
            have hafter : after.length < (c :: rest).length :=
              Nat.lt_trans (Word.length_lt_of_splitPayload? hd) hlt
            have hrest := ih after.length hafter after rfl
              (before ++ [.symbol c] ++ [.payload payload]) (by simp [replaces])
            rw [countP_chooses_payload] at hrest
            rw [Word.dropPayload_of_split hd, hrest, Word.tokens_of_split hd, outputs_cons]
            simp [output, hc, replaces]

/-- A pass from a generator that has made some choices goes on from the next one. -/
theorem derive_eq_pass (rules : Rules) (gen : Generator) (drawn : Nat) (w : Word) :
    rules.derive (gen.after drawn) w =
      (rules.pass gen drawn w, gen.after (drawn + rules.choices w)) := by
  have h := derive_eq_outputs rules gen drawn w [] (by simp)
  rw [List.countP_nil, Nat.add_zero, List.nil_append] at h
  exact h

/-- A pass copies a self-contained word without a symbol that has a production. -/
theorem derive_append_of_inactive (rules : Rules) (gen : Generator) {first : Word}
    (hfirst : first.IsSelfContained) (h : ∀ c ∈ first, rules.active? c = none) (w : Word) :
    rules.derive gen (first ++ w) =
      (first ++ (rules.derive gen w).1, (rules.derive gen w).2) := by
  -- A payload is copied in one step, so the induction is on the length.
  induction hn : first.length using Nat.strongRecOn generalizing first with
  | ind n ih =>
    subst hn
    cases first with
    | nil => rfl
    | cons c rest =>
      by_cases hc : c = '('
      · subst hc
        obtain ⟨payload, after, hword, hp⟩ := hfirst.exists_enclose
        have hlt : after.length < ('(' :: rest).length := by
          rw [hword]
          exact Word.length_lt_of_splitPayload? (Word.splitPayload?_enclose hp after)
        have hafter : after.IsSelfContained := (hword ▸ hfirst).of_append
        have hcopied := ih after.length hlt hafter
          (fun c hc => h c (by rw [hword]; exact List.mem_append_right _ hc)) rfl
        rw [hword, List.append_assoc,
          derive_of_split rules gen (Word.splitPayload?_enclose hp (after ++ w)), hcopied,
          List.append_assoc]
      · have hnone : rules.replacement? gen c = none :=
          replacement?_of_inactive (h c List.mem_cons_self) gen 0
        have hcopied := ih rest.length (Nat.lt_succ_self _) hfirst.2
          (fun c hc => h c (List.mem_cons_of_mem _ hc)) rfl
        rw [List.cons_append,
          derive_cons_of_none rules (Word.splitPayload?_of_head_ne hc (rest ++ w)) hnone, hcopied,
          List.cons_append]

/-- Where a pass has nothing to replace, neither have any others. -/
theorem expand_of_derive_eq {rules : Rules} {w : Word} (h : ∀ gen, rules.derive gen w = (w, gen))
    (passes : Nat) (gen : Generator) : rules.expand passes gen w = (w, gen) := by
  induction passes with
  | zero => rfl
  | succ passes ih => rw [expand_succ, h, ih]

-- A rule on `)` acts outside of payloads only, and takes the payload behind the `)` along.
example :
    (Rules.ofList [('F', .fixed ['X']), (')', .fixed [])]).pass ⟨0⟩ 0 "F(F)G(F))(F)(F".toList =
      "XG(F)(X".toList := by
  decide +kernel

/-- All passes of a derivation share one stream of draws. The choices are numbered through the
passes, and each is the pick that has its number. -/
theorem expand_eq_history (rules : Rules) (gen : Generator) (w : Word) (passes : Nat) :
    rules.expand passes gen w =
        ((rules.history gen w passes).1, gen.after (rules.history gen w passes).2) ∧
      (rules.expand passes gen w).2.state =
        gen.state + UInt32.ofNat (rules.history gen w passes).2 * Generator.stride := by
  have hall : rules.expand passes gen w =
      ((rules.history gen w passes).1, gen.after (rules.history gen w passes).2) := by
    -- The last pass starts from the generator that the ones before it left behind.
    induction passes with
    | zero => rfl
    | succ passes ih =>
      rw [expand_add, ih, expand_succ, expand_zero, derive_eq_pass]
      rfl
  refine ⟨hall, ?_⟩
  rw [hall]
  exact Generator.state_after gen _

end Rules

end Arbor
