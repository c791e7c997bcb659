import Mathlib.Data.List.Forall2
import Arbor.FileTree.System
import Arbor.Proofs.Grammar.Passes
import Arbor.Proofs.Turtle.Reading

/-! The words of drawing steps under a derivation and before the turtle. Neither splits a word
inside a payload, so a step comes out of a derivation as it was, a sprout as one of the organic
tips, and the turtle reads one instruction for each step. -/

namespace Arbor

theorem Decimal.Fixed.close_not_mem_text {places : Nat} (x : Decimal.Fixed places) :
    ')' ∉ x.text := by
  have hsign (negative : Bool) : ')' ∉ signText negative := by cases negative <;> decide
  have hdigits (n : Nat) : ')' ∉ Nat.toDigits 10 n := by
    intro h
    have hdigit := Nat.isDigit_of_mem_toDigits (by decide) (by decide) h
    simp at hdigit
  cases x with
  | undefined => simp [text]
  | infinite negative => simp [text, hsign]
  | finite negative units =>
    simp [text, fractionText, List.leftpad, hsign, hdigits]

/-- Whether a path is silent from its first `)` on, where the payload that it stands in ends: no
symbol there has a command. -/
def IsQuiet (path : String) : Prop :=
  ∀ c ∈ path.toList.dropWhile (· ≠ ')'), Turtle.Command.ofSymbol? c = none

instance (path : String) : Decidable (IsQuiet path) :=
  List.decidableBAll _ (path.toList.dropWhile (· ≠ ')'))

/-- A path without a `)` is quiet, as nothing of it is left behind its payload. -/
theorem isQuiet_of_close_not_mem {path : String} (h : ')' ∉ path.toList) : IsQuiet path := by
  have hopen : ∀ c ∈ path.toList, decide (c ≠ ')') = true := by
    intro c hc
    exact decide_eq_true fun heq => h (heq ▸ hc)
  have hdrop : path.toList.dropWhile (· ≠ ')') = [] := by
    rw [← List.append_nil path.toList, List.dropWhile_append_of_pos hopen, List.dropWhile_nil]
  rw [IsQuiet, hdrop]
  exact fun c hc => absurd hc List.not_mem_nil

def Turtle.Instruction.EqUpToName (i j : Instruction) : Prop :=
  i.command = j.command ∧ (i.command ≠ .mark → i.payload = j.payload)

namespace Step

variable {α : Type}

def symbol : Step α → Char
  | push => '['
  | pop => ']'
  | width _ => '!'
  | draw _ => 'G'
  | roll _ => '/'
  | yaw _ => '+'
  | pitch _ => '^'
  | mark _ _ => '@'
  | sprout => 'F'

def command : Step α → Turtle.Command
  | push => .push
  | pop => .pop
  | width _ => .width
  | draw _ => .draw
  | roll _ => .turn .roll false
  | yaw _ => .turn .yaw false
  | pitch _ => .turn .pitch false
  | mark _ _ => .mark
  | sprout => .draw

def IsReadable : Step α → Prop
  | mark _ path => ')' ∉ path.toList
  | _ => True

def Names (p : String → Prop) : Step α → Prop
  | mark _ path => p path
  | _ => True

def isSprout : Step α → Bool
  | sprout => true
  | _ => false

theorem isReadable_iff_names {step : Step α} :
    step.IsReadable ↔ step.Names fun path => ')' ∉ path.toList := by
  cases step <;> rfl

theorem symbol_ne_open (step : Step α) : step.symbol ≠ '(' := by
  cases step <;> simp [symbol]

theorem ofSymbol?_symbol (step : Step α) :
    Turtle.Command.ofSymbol? step.symbol = some step.command := by
  cases step <;> rfl

/-- Only a sprout is written as an `F`, the one symbol that grows. -/
theorem symbol_eq_iff {step : Step α} : step.symbol = 'F' ↔ step.isSprout := by
  cases step <;> simp [symbol, isSprout]

variable [Scalar α]

def payload? : Step α → Option Word
  | push => none
  | pop => none
  | width radius => some (Scalar.toFixed 3 radius).text
  | draw length => some (Scalar.toFixed 2 length).text
  | roll angle => some (Scalar.toFixed 1 angle).text
  | yaw angle => some (Scalar.toFixed 1 angle).text
  | pitch angle => some (Scalar.toFixed 1 angle).text
  | mark kind path => some (kind.payload path)
  | sprout => none

def instruction (step : Step α) : Turtle.Instruction :=
  ⟨step.command, step.payload?⟩

/-- A step is written as its symbol, and behind that its payload if it has one. -/
theorem word_eq (step : Step α) :
    step.word = step.symbol :: step.payload?.elim [] Word.enclose := by
  cases step <;> rfl

/-- The payload of a readable step ends where its text ends: no number has a `)`, and the path has
none. -/
theorem close_not_mem_payload {step : Step α} (h : step.IsReadable) {payload : Word}
    (hp : step.payload? = some payload) : ')' ∉ payload := by
  cases step with
  | push | pop | sprout => simp [payload?] at hp
  | mark kind path =>
    obtain rfl : kind.payload path = payload := by simpa [payload?] using hp
    have htag : kind.tag ≠ ')' := by cases kind <;> decide
    have hpath : ')' ∉ path.toList := h
    simpa [EntryKind.payload, Ne.symm htag] using hpath
  | width x | draw x | roll x | yaw x | pitch x =>
    obtain rfl := Option.some.inj hp
    exact Decimal.Fixed.close_not_mem_text _

/-- What a quiet path leaves behind the payload that it stands in has no commands. -/
theorem exists_enclose_payload {step : Step α} (h : step.Names IsQuiet) {payload : Word}
    (hp : step.payload? = some payload) :
    ∃ first litter : Word, Word.enclose payload = Word.enclose first ++ litter ∧ ')' ∉ first ∧
      litter.IsSelfContained ∧ (∀ c ∈ litter, Turtle.Command.ofSymbol? c = none) ∧
      (step.command ≠ .mark → first = payload) := by
  by_cases hmark : step.command = .mark
  · cases step with
    | mark kind path =>
      obtain rfl : kind.payload path = payload := Option.some.inj hp
      obtain ⟨first, litter, hword, hfirst, hclosed, hlitter⟩ :=
        Word.exists_enclose_append (kind.payload path)
      -- The tag and the colon before the path are no `)`.
      have htag : kind.tag ≠ ')' := by cases kind <;> decide
      have hdrop : (kind.payload path).dropWhile (· ≠ ')') = path.toList.dropWhile (· ≠ ')') := by
        simp [EntryKind.payload, htag]
      rw [hdrop] at hlitter
      exact ⟨first, litter, hword, hfirst, hclosed, fun c hc => h c (hlitter hc),
        fun hne => absurd rfl hne⟩
    | _ => cases hmark
  · have hreadable : step.IsReadable := by
      cases step with
      | mark kind path => exact absurd rfl hmark
      | _ => trivial
    exact ⟨payload, [], (List.append_nil _).symm, close_not_mem_payload hreadable hp, trivial,
      fun c hc => absurd hc List.not_mem_nil, fun _ => rfl⟩

/-- A drawing starts with a symbol and so cannot be taken for a payload. -/
theorem splitPayload?_words (steps : List (Step α)) : Word.splitPayload? (words steps) = none := by
  cases steps with
  | nil => rfl
  | cons step steps =>
    rw [words_cons, word_eq, List.cons_append]
    exact Word.splitPayload?_of_head_ne step.symbol_ne_open _

/-! ### Derivation -/

theorem organicRules_get? (c : Char) :
    LSystem.organicRules.get? c =
      if 'F' = c then some (.stochastic LSystem.organicTips) else none := by
  simp [LSystem.organicRules, Rules.ofList]

/-- Under the organic rules nothing grows but `F`. -/
theorem organicRules_active? (c : Char) :
    LSystem.organicRules.active? c =
      if c = 'F' then some (.stochastic LSystem.organicTips) else none := by
  by_cases hc : c = 'F'
  · subst hc
    decide +kernel
  · simp [Rules.active?, organicRules_get?, hc, Ne.symm hc]

def organicTip (gen : Generator) (n : Nat) : Word :=
  (Production.stochastic LSystem.organicTips).nth gen n

def grown (tips : Nat → Word) (n : Nat) : List (Step α) → Word
  | [] => []
  | step :: steps =>
    if step.isSprout then tips n ++ grown tips (n + 1) steps
    else step.word ++ grown tips n steps

theorem organicTip_mem (gen : Generator) (n : Nat) : organicTip gen n ∈ LSystem.organicTips :=
  Production.nth_stochastic_mem (by decide) gen n

theorem organicRules_active?_of_ofSymbol?_eq_none {c : Char}
    (h : Turtle.Command.ofSymbol? c = none) : LSystem.organicRules.active? c = none := by
  rw [organicRules_active?, if_neg]
  rintro rfl
  exact absurd h (by decide)

/-- A step that is no sprout is copied, with what a quiet path leaves behind its payload. -/
theorem derive_step {step : Step α} (hq : step.Names IsQuiet) (hs : ¬step.isSprout)
    (gen : Generator) (w : Word) :
    LSystem.organicRules.derive gen (step.word ++ w) =
      (step.word ++ (LSystem.organicRules.derive gen w).1,
        (LSystem.organicRules.derive gen w).2) := by
  have hnone : LSystem.organicRules.replacement? gen step.symbol = none := by
    have hinactive : LSystem.organicRules.active? step.symbol = none := by
      rw [organicRules_active?, if_neg (fun h => hs (symbol_eq_iff.1 h))]
    exact Rules.replacement?_of_inactive hinactive gen 0
  have hhead (rest : Word) : Word.splitPayload? (step.symbol :: rest) = none :=
    Word.splitPayload?_of_head_ne step.symbol_ne_open rest
  -- The symbol is copied alone, then a payload as a whole, and then the litter behind it.
  rw [word_eq, List.cons_append, Rules.derive_cons_of_none _ (hhead _) hnone]
  cases hp : step.payload? with
  | none => rfl
  | some payload =>
    obtain ⟨first, litter, hword, hfirst, hclosed, hlitter, -⟩ := exists_enclose_payload hq hp
    have hsplit := Word.splitPayload?_enclose hfirst (litter ++ w)
    have hcopied := Rules.derive_append_of_inactive LSystem.organicRules gen hclosed
      (fun c hc => organicRules_active?_of_ofSymbol?_eq_none (hlitter c hc)) w
    rw [Option.elim_some, hword, List.append_assoc, Rules.derive_of_split _ _ hsplit, hcopied,
      List.cons_append, List.append_assoc]

/-- Only sprouts grow, and each into the tip whose turn it is. -/
theorem derive_words (gen : Generator) (n : Nat) (steps : List (Step α))
    (h : ∀ step ∈ steps, step.Names IsQuiet) :
    LSystem.organicRules.derive (gen.after n) (words steps) =
      (grown (organicTip gen) n steps, gen.after (n + steps.countP isSprout)) := by
  induction steps generalizing n with
  | nil => simp [grown]
  | cons step steps ih =>
    have hrest := fun m => ih m fun other hother => h other (List.mem_cons_of_mem _ hother)
    rw [words_cons, grown]
    -- A sprout is the only step whose symbol has a production.
    by_cases hs : step.isSprout
    · have hactive : LSystem.organicRules.active? 'F' =
          some (.stochastic LSystem.organicTips) := by rw [organicRules_active?, if_pos rfl]
      have hchoice : LSystem.organicRules.chooses (.symbol 'F') := by
        simp [Rules.chooses, hactive, Production.isStochastic]
      have hrep := Rules.replacement?_of_active? hactive gen n
      rw [if_pos hchoice] at hrep
      cases step with
      | sprout =>
        rw [if_pos hs]
        change LSystem.organicRules.derive _ ('F' :: words steps) = _
        rw [Rules.derive_cons_of_some _ hrep, Word.dropPayload_of_none (splitPayload?_words steps),
          hrest, List.countP_cons_of_pos hs, Nat.add_assoc, Nat.add_comm 1]
        rfl
      | _ => cases hs
    · rw [if_neg hs, derive_step (h step List.mem_cons_self) hs, hrest,
        List.countP_cons_of_neg hs]

/-! ### Reading -/

open Turtle

/-- A payload is written behind the symbols that take one, and behind no others. -/
theorem takesPayload_command_eq {step : Step α} (hs : ¬step.isSprout) :
    step.command.takesPayload = step.payload?.isSome := by
  cases step with
  | sprout => exact absurd rfl hs
  | _ => rfl

/-- The turtle reads a readable step as its instruction. -/
theorem instructions_step {step : Step α} (hr : step.IsReadable) (hs : ¬step.isSprout)
    (w : Word) : instructions (step.word ++ w) = step.instruction :: instructions w := by
  rw [word_eq, List.cons_append]
  cases hp : step.payload? with
  | none =>
    have hcommand : ¬step.command.takesPayload := by simp [takesPayload_command_eq hs, hp]
    rw [instructions_cons_of_not_takesPayload step.ofSymbol?_symbol hcommand, instruction, hp]
    rfl
  | some payload =>
    have hcommand : step.command.takesPayload := by simp [takesPayload_command_eq hs, hp]
    have hsplit := Word.splitPayload?_enclose (close_not_mem_payload hr hp) w
    rw [instructions_cons_of_takesPayload step.ofSymbol?_symbol hcommand, Option.elim_some,
      Word.takePayload_of_split hsplit, instruction, hp]

/-- Of a step with a quiet path, the turtle reads a part of the path as a name and nothing of it as
an instruction. -/
theorem exists_instructions_step {step : Step α} (hq : step.Names IsQuiet) (hs : ¬step.isSprout)
    {w : Word} (hw : Word.splitPayload? w = none) :
    ∃ i : Instruction, step.instruction.EqUpToName i ∧
      instructions (step.word ++ w) = i :: instructions w := by
  rw [word_eq, List.cons_append]
  cases hp : step.payload? with
  | none =>
    have hcommand : ¬step.command.takesPayload := by simp [takesPayload_command_eq hs, hp]
    refine ⟨⟨step.command, none⟩, ⟨rfl, fun _ => hp⟩, ?_⟩
    rw [instructions_cons_of_not_takesPayload step.ofSymbol?_symbol hcommand]
    rfl
  | some payload =>
    have hcommand : step.command.takesPayload := by simp [takesPayload_command_eq hs, hp]
    -- The payload is read up to its first `)`, and what is left of it has no commands.
    obtain ⟨first, litter, hword, hfirst, hclosed, hlitter, hwhole⟩ :=
      exists_enclose_payload hq hp
    have hsplit := Word.splitPayload?_enclose hfirst (litter ++ w)
    have hsilent : instructions litter = [] := instructions_eq_nil_iff.2 hlitter
    refine ⟨⟨step.command, some first⟩, ⟨rfl, fun hne => ?_⟩, ?_⟩
    · exact hp.trans (congrArg some (hwhole hne).symm)
    · rw [instructions_cons_of_takesPayload step.ofSymbol?_symbol hcommand, Option.elim_some,
        hword, List.append_assoc, Word.takePayload_of_split hsplit,
        instructions_append hclosed hw, hsilent, List.nil_append]

def instructionsWith (tip : Word) (step : Step α) : List Instruction :=
  if step.isSprout then instructions tip else [step.instruction]

/-- Whether instructions carry out steps, each sprout by any of the organic tips. -/
def Perform : List (Step α) → List Instruction → Prop
  | [], list => list = []
  | step :: steps, list => ∃ tip ∈ LSystem.organicTips, ∃ rest,
      list = step.instructionsWith tip ++ rest ∧ Perform steps rest

/-- Instructions for steps one after the other are those for the first, then those for the second.
-/
theorem perform_append {first second : List (Step α)} {list : List Instruction}
    (h : Perform (first ++ second) list) :
    ∃ before after, list = before ++ after ∧ Perform first before ∧ Perform second after := by
  induction first generalizing list with
  | nil => exact ⟨[], list, rfl, rfl, h⟩
  | cons step first ih =>
    obtain ⟨tip, htip, rest, rfl, hrest⟩ := h
    obtain ⟨before, after, rfl, hbefore, hafter⟩ := ih hrest
    exact ⟨step.instructionsWith tip ++ before, after, (List.append_assoc _ _ _).symm,
      ⟨tip, htip, before, rfl, hbefore⟩, hafter⟩

theorem perform_cons {step : Step α} {steps : List (Step α)} {list : List Instruction}
    (h : Perform (step :: steps) list) (hs : ¬step.isSprout) :
    ∃ rest, list = step.instruction :: rest ∧ Perform steps rest := by
  obtain ⟨tip, -, rest, rfl, hrest⟩ := h
  refine ⟨rest, ?_, hrest⟩
  rw [instructionsWith, if_neg hs, List.singleton_append]

/-- No tip opens a payload that it does not close. -/
theorem isSelfContained_of_mem_organicTips {tip : Word} (h : tip ∈ LSystem.organicTips) :
    tip.IsSelfContained := by
  have hall : ∀ tip ∈ LSystem.organicTips, tip.IsSelfContained := by decide +kernel
  exact hall tip h

/-- A grown word begins with a symbol and cannot be taken for a payload of what stands before it. -/
theorem splitPayload?_grown {tips : Nat → Word} (htips : ∀ n, tips n ∈ LSystem.organicTips) (n : Nat)
    (steps : List (Step α)) : Word.splitPayload? (grown tips n steps) = none := by
  cases steps with
  | nil => rfl
  | cons step steps =>
    rw [grown]
    split
    · have hhead : ∀ tip ∈ LSystem.organicTips, ∃ rest, tip = 'G' :: rest := by
        simp [LSystem.organicTips]
      obtain ⟨rest, hrest⟩ := hhead _ (htips n)
      rw [hrest, List.cons_append]
      exact Word.splitPayload?_of_head_ne (by decide) _
    · rw [word_eq, List.cons_append]
      exact Word.splitPayload?_of_head_ne step.symbol_ne_open _

/-- A tip is read to its end, since what follows cannot close a payload of it. -/
theorem instructions_tip_append {tips : Nat → Word} (htips : ∀ n, tips n ∈ LSystem.organicTips)
    (m n : Nat) (steps : List (Step α)) :
    instructions (tips m ++ grown tips n steps) =
      instructions (tips m) ++ instructions (grown tips n steps) :=
  instructions_append (isSelfContained_of_mem_organicTips (htips m))
    (splitPayload?_grown htips n steps)

/-- The turtle reads a grown word step by step. -/
theorem perform_grown {tips : Nat → Word} (htips : ∀ n, tips n ∈ LSystem.organicTips) (n : Nat)
    {steps : List (Step α)} (h : ∀ step ∈ steps, step.IsReadable) :
    Perform steps (instructions (grown tips n steps)) := by
  induction steps generalizing n with
  | nil => exact instructions_nil
  | cons step steps ih =>
    rw [List.forall_mem_cons] at h
    rw [grown]
    by_cases hs : step.isSprout
    · refine ⟨tips n, htips n, _, ?_, ih (n + 1) h.2⟩
      rw [if_pos hs, instructionsWith, if_pos hs, instructions_tip_append htips]
    · refine ⟨tips n, htips n, _, ?_, ih n h.2⟩
      rw [if_neg hs, instructionsWith, if_neg hs, List.singleton_append]
      exact instructions_step h.1 hs _

/-- Where the paths are quiet, the turtle carries out the steps of a grown word, and it errs in the
names of markers at most. -/
theorem exists_perform_grown {tips : Nat → Word} (htips : ∀ n, tips n ∈ LSystem.organicTips)
    (n : Nat) {steps : List (Step α)} (h : ∀ step ∈ steps, step.Names IsQuiet) :
    ∃ list, Perform steps list ∧
      List.Forall₂ Instruction.EqUpToName list (instructions (grown tips n steps)) := by
  induction steps generalizing n with
  | nil =>
    refine ⟨[], rfl, ?_⟩
    rw [grown, instructions_nil]
    exact List.Forall₂.nil
  | cons step steps ih =>
    rw [List.forall_mem_cons] at h
    rw [grown]
    by_cases hs : step.isSprout
    · obtain ⟨list, hperform, hsame⟩ := ih (n + 1) h.2
      refine ⟨instructions (tips n) ++ list, ⟨tips n, htips n, list, ?_, hperform⟩, ?_⟩
      · rw [instructionsWith, if_pos hs]
      · rw [if_pos hs, instructions_tip_append htips]
        exact List.rel_append (List.forall₂_same.2 fun i _ => ⟨rfl, fun _ => rfl⟩) hsame
    · obtain ⟨list, hperform, hsame⟩ := ih n h.2
      obtain ⟨i, hi, hread⟩ := exists_instructions_step h.1 hs (splitPayload?_grown htips n steps)
      refine ⟨step.instruction :: list, ⟨tips n, htips n, list, ?_, hperform⟩, ?_⟩
      · rw [instructionsWith, if_neg hs, List.singleton_append]
      · rw [if_neg hs, hread]
        exact List.Forall₂.cons hi hsame

end Step

end Arbor
