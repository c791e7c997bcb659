import Arbor.Proofs.Scalar.Trig
import Arbor.Proofs.Space.Reflection
import Arbor.Proofs.Turtle.Reading
import Arbor.Turtle.Walk

/-! The turtle in a mirror. The turns about axes that lie in the mirror go the other way round, the
others stay as they are, so a word with the symbols of the former exchanged draws the mirrored
tree. -/

namespace Arbor.Reflection

open Turtle

/-! ### Words -/

def reverses : Reflection → Turn → Bool
  | x, .yaw => true
  | z, .yaw => false
  | x, .pitch => false
  | z, .pitch => true
  | _, .roll => true

def symbol : Reflection → Char → Char
  | x, '+' => '-'
  | x, '-' => '+'
  | z, '^' => '&'
  | z, '&' => '^'
  | _, '/' => '\\'
  | _, '\\' => '/'
  | _, c => c

def command (r : Reflection) : Command → Command
  | .turn about backward => .turn about (r.reverses about ^^ backward)
  | other => other

def instruction (r : Reflection) (i : Instruction) : Instruction :=
  { i with command := r.command i.command }

/-- Exchanges the symbols of a word that the turtle carries out. What it reads as payloads stays. -/
def word (r : Reflection) (w : Word) : Word :=
  match w with
  | [] => []
  | c :: rest =>
    if (Command.ofSymbol? c).any (·.takesPayload) then
      r.symbol c :: ((Word.takePayload rest).1.elim [] Word.enclose ++
        r.word (Word.takePayload rest).2)
    else r.symbol c :: r.word rest
termination_by w.length
decreasing_by
  · have := Word.length_takePayload_le rest; simp; omega
  · simp

variable (r : Reflection)

theorem symbol_of_none {c : Char} (h : Command.ofSymbol? c = none) : r.symbol c = c := by
  unfold symbol
  split <;> first | cases h | rfl

/-- The exchanged symbol has the exchanged command. -/
theorem ofSymbol?_symbol (c : Char) :
    Command.ofSymbol? (r.symbol c) = (Command.ofSymbol? c).map r.command := by
  cases hc : Command.ofSymbol? c with
  | none => rw [symbol_of_none r hc, hc, Option.map_none]
  | some command =>
    unfold Command.ofSymbol? at hc
    split at hc <;> cases hc <;> cases r <;> rfl

theorem ofSymbol?_symbol_of_some {c : Char} {command : Command}
    (h : Command.ofSymbol? c = some command) :
    Command.ofSymbol? (r.symbol c) = some (r.command command) := by
  rw [ofSymbol?_symbol, h, Option.map_some]

theorem symbol_symbol (c : Char) : r.symbol (r.symbol c) = c := by
  cases hc : Command.ofSymbol? c with
  | none => rw [symbol_of_none r hc, symbol_of_none r hc]
  | some command =>
    unfold Command.ofSymbol? at hc
    split at hc <;> cases hc <;> cases r <;> rfl

theorem takesPayload_command (command : Command) :
    (r.command command).takesPayload = command.takesPayload := by
  cases command <;> rfl

theorem word_nil : r.word [] = [] := by
  rw [word]

theorem word_cons_of_not_takesPayload {c : Char}
    (h : ¬(Command.ofSymbol? c).any (·.takesPayload)) (rest : Word) :
    r.word (c :: rest) = r.symbol c :: r.word rest := by
  rw [word, if_neg h]

/-- A symbol without a payload is mirrored, and the rest on its own. -/
theorem word_cons_of_none {c : Char} {rest : Word} (h : Word.splitPayload? rest = none) :
    r.word (c :: rest) = r.symbol c :: r.word rest := by
  by_cases hc : (Command.ofSymbol? c).any (·.takesPayload)
  · rw [word, if_pos hc, Word.takePayload_of_none h]
    rfl
  · exact r.word_cons_of_not_takesPayload hc rest

/-- A payload that belongs to its symbol stays as it is. -/
theorem word_cons_of_split {c : Char} (hc : (Command.ofSymbol? c).any (·.takesPayload))
    {rest payload after : Word} (h : Word.splitPayload? rest = some (payload, after)) :
    r.word (c :: rest) = r.symbol c :: (Word.enclose payload ++ r.word after) := by
  rw [word, if_pos hc, Word.takePayload_of_split h]
  rfl

/-- What a symbol does not take as its payload is exchanged by itself. -/
theorem exists_word_cons (c : Char) (rest : Word) :
    ∃ text after, rest = text ++ after ∧
      r.word (c :: rest) = r.symbol c :: (text ++ r.word after) := by
  by_cases hc : (Command.ofSymbol? c).any (·.takesPayload)
  · cases hs : Word.splitPayload? rest with
    | none => exact ⟨[], rest, rfl, r.word_cons_of_none hs⟩
    | some split =>
      exact ⟨_, _, (Word.splitPayload?_eq_some_iff.1 hs).1, r.word_cons_of_split hc hs⟩
  · exact ⟨[], rest, rfl, r.word_cons_of_not_takesPayload hc rest⟩

theorem eq_of_symbol_eq {c d : Char} (hd : r.symbol d = d) (h : r.symbol c = d) : c = d := by
  rw [← r.symbol_symbol c, h, hd]

/-- A symbol that is not exchanged gets nowhere else. -/
theorem mem_of_mem_word {d : Char} (hd : r.symbol d = d) {w : Word} (h : d ∈ r.word w) : d ∈ w := by
  induction hn : w.length using Nat.strongRecOn generalizing w with
  | ind n ih =>
    subst hn
    cases w with
    | nil => rwa [word_nil] at h
    | cons c rest =>
      obtain ⟨text, after, rfl, hword⟩ := r.exists_word_cons c rest
      have hlt : after.length < (c :: (text ++ after)).length := by
        rw [List.length_cons, List.length_append]
        omega
      rw [hword, List.mem_cons, List.mem_append] at h
      rw [List.mem_cons, List.mem_append]
      rcases h with hfirst | htext | hafter
      · exact Or.inl (r.eq_of_symbol_eq hd hfirst.symm).symm
      · exact Or.inr (Or.inl htext)
      · exact Or.inr (Or.inr (ih _ hlt hafter rfl))

/-- No payload comes into being where there was none. -/
theorem splitPayload?_word {w : Word} (h : Word.splitPayload? w = none) :
    Word.splitPayload? (r.word w) = none := by
  -- No mirror exchanges the brackets of payloads, so none come into a word or leave it.
  have hopen : r.symbol '(' = '(' := r.symbol_of_none rfl
  have hclose : r.symbol ')' = ')' := r.symbol_of_none rfl
  cases w with
  | nil => rw [word_nil, Word.splitPayload?_nil]
  | cons c rest =>
    rw [Word.splitPayload?_eq_none_iff] at h
    by_cases hc : c = '('
    · subst hc
      rw [r.word_cons_of_not_takesPayload (by decide), Word.splitPayload?_eq_none_iff]
      exact fun _ hmem => h rfl (r.mem_of_mem_word hclose hmem)
    · obtain ⟨text, after, -, hword⟩ := r.exists_word_cons c rest
      rw [hword]
      exact Word.splitPayload?_of_head_ne (fun heq => hc (r.eq_of_symbol_eq hopen heq)) _

/-- The turtle reads an exchanged word as the exchanged commands with the same payloads. -/
theorem instructions_word (w : Word) :
    instructions (r.word w) = (instructions w).map r.instruction := by
  induction w using word.induct with
  | case1 => rw [word_nil, instructions_nil, List.map_nil]
  | case2 c rest hc ih =>
    obtain ⟨command, hcommand, htakes⟩ := (Option.any_eq_true _ _).1 hc
    have hsymbol := r.ofSymbol?_symbol_of_some hcommand
    have htakes' : (r.command command).takesPayload := by
      rwa [takesPayload_command]
    rw [instructions_cons_of_takesPayload hcommand htakes, List.map_cons]
    -- The payload is the same in the exchanged word, and there is none where there was none.
    cases hs : Word.splitPayload? rest with
    | none =>
      rw [Word.takePayload_of_none hs] at ih ⊢
      rw [r.word_cons_of_none hs, instructions_cons_of_takesPayload hsymbol htakes',
        Word.takePayload_of_none (r.splitPayload?_word hs), ih]
      rfl
    | some split =>
      obtain ⟨payload, after⟩ := split
      have hpayload : ')' ∉ payload := (Word.splitPayload?_eq_some_iff.1 hs).2
      rw [Word.takePayload_of_split hs] at ih ⊢
      rw [r.word_cons_of_split hc hs, instructions_cons_of_takesPayload hsymbol htakes',
        Word.takePayload_of_split (Word.splitPayload?_enclose hpayload _), ih]
      rfl
  | case3 c rest hc ih =>
    rw [r.word_cons_of_not_takesPayload hc]
    cases hcommand : Command.ofSymbol? c with
    | none =>
      rw [r.symbol_of_none hcommand, instructions_cons_of_none hcommand,
        instructions_cons_of_none hcommand, ih]
    | some command =>
      have hsymbol := r.ofSymbol?_symbol_of_some hcommand
      have htakes : ¬command.takesPayload := by
        rwa [hcommand, Option.any_some] at hc
      have htakes' : ¬(r.command command).takesPayload := by
        rwa [takesPayload_command]
      rw [instructions_cons_of_not_takesPayload hcommand htakes,
        instructions_cons_of_not_takesPayload hsymbol htakes', ih]
      rfl

/-! ### Walks -/

section

variable {α : Type} [Scalar α]

def pose (pose : Pose α) : Pose α :=
  { pose with position := r.point pose.position, orientation := r.rotation pose.orientation }

def branch (branch : Branch α) : Branch α :=
  { branch with base := r.point branch.base, tip := r.point branch.tip }

def marker (marker : Marker α) : Marker α :=
  { marker with position := r.point marker.position, direction := r.point marker.direction }

def skeleton (skeleton : Skeleton α) : Skeleton α :=
  ⟨skeleton.branches.map r.branch, skeleton.markers.map r.marker⟩

def walk (walk : Walk α) : Walk α where
  pose := r.pose walk.pose
  current := walk.current
  saved := walk.saved.map fun state => (r.pose state.1, state.2)
  branches := walk.branches.map r.branch
  markers := walk.markers.map r.marker

end

theorem pose_start : r.pose (.start : Pose ℝ) = .start := by
  rw [pose, Pose.start, point_zero, rotation_identity]

/-- In the mirror the turtle heads where its image does. -/
theorem heading_pose (pose : Pose ℝ) : (r.pose pose).heading = r.point pose.heading := by
  rw [Pose.heading, Pose.heading, ← rotation_apply, point_unitY]
  rfl

/-- In the mirror the turtle goes ahead as its image does. -/
theorem advance_pose (pose : Pose ℝ) (distance : ℝ) :
    (r.pose pose).advance distance = r.pose (pose.advance distance) := by
  have hposition : (r.pose pose).position + (r.pose pose).heading.scale distance =
      r.point (pose.position + pose.heading.scale distance) := by
    rw [point_add, point_scale, ← heading_pose]
    rfl
  rw [Pose.advance, hposition]
  rfl

theorem pop_walk (walk : Walk ℝ) : (r.walk walk).pop = r.walk walk.pop := by
  cases hsaved : walk.saved with
  | nil =>
    have hnone : (r.walk walk).saved = [] := by
      rw [Reflection.walk, hsaved, List.map_nil]
    rw [Walk.pop_of_saved_nil hsaved, Walk.pop_of_saved_nil hnone]
  | cons state saved =>
    have hstate : (r.walk walk).saved =
        (r.pose state.1, state.2) :: saved.map fun state => (r.pose state.1, state.2) := by
      rw [Reflection.walk, hsaved, List.map_cons]
    rw [Walk.pop_of_saved_cons hsaved, Walk.pop_of_saved_cons hstate]
    rfl

theorem draw_walk (walk : Walk ℝ) (length : ℝ) :
    (r.walk walk).draw length = r.walk (walk.draw length) := by
  have htip : (r.walk walk).pose.advance length = r.pose (walk.pose.advance length) :=
    r.advance_pose walk.pose length
  rw [Walk.draw, Walk.draw, htip, Reflection.walk, Reflection.walk, Array.map_push, Array.size_map]
  rfl

theorem mark_walk (walk : Walk ℝ) (payload : Word) :
    (r.walk walk).mark payload = r.walk (walk.mark payload) := by
  have hheading : (r.walk walk).pose.heading = r.point walk.pose.heading :=
    r.heading_pose walk.pose
  rw [Walk.mark, Walk.mark, hheading, Reflection.walk, Reflection.walk, Array.map_push]
  rfl

section

variable [Trig ℝ] [Trig.IsSymmetric ℝ]

/-- In the mirror a rotation about an axis of the turtle goes the same way round, or the other where
the axis lies in the mirror. -/
theorem rotation_ofAxisAngle (about : Turn) (angle : ℝ) :
    r.rotation (.ofAxisAngle about.axis angle) =
      .ofAxisAngle about.axis (if r.reverses about then -angle else angle) := by
  cases r <;> cases about <;>
    simp [rotation, Rotation.ofAxisAngle, Turn.axis, reverses, Vector3.scale, Vector3.unitX,
      Vector3.unitY, Vector3.unitZ, Scalar.zero_real, neg_mul, Trig.IsSymmetric.sin_neg,
      Trig.IsSymmetric.cos_neg]

/-- In the mirror the turtle turns the other way round, about the axes that the mirror reverses. -/
theorem rotate_pose (pose : Pose ℝ) (about : Turn) (degrees : ℝ) :
    (r.pose pose).rotate about.axis (if r.reverses about then -degrees else degrees) =
      r.pose (pose.rotate about.axis degrees) := by
  -- The sign passes through the conversion from degrees.
  have hradians : Scalar.radians (if r.reverses about then -degrees else degrees) =
      if r.reverses about then -Scalar.radians degrees else Scalar.radians degrees := by
    rw [apply_ite Scalar.radians, Scalar.radians, neg_mul]
    rfl
  have horientation : r.rotation (pose.orientation *
      Rotation.ofAxisAngle about.axis (Scalar.radians degrees)).normalize =
        (r.rotation pose.orientation * Rotation.ofAxisAngle about.axis
          (Scalar.radians (if r.reverses about then -degrees else degrees))).normalize := by
    rw [rotation_normalize, rotation_mul, rotation_ofAxisAngle, hradians]
  rw [Pose.rotate, Pose.rotate, Reflection.pose, Reflection.pose, horientation]

/-- Whatever the turtle does, it does the exchanged thing in the mirror. -/
theorem step_walk (angle : ℝ) (walk : Walk ℝ) (i : Instruction) :
    (r.walk walk).step angle (r.instruction i) = r.walk (walk.step angle i) := by
  have hchange : ∀ {pose other : Pose ℝ}, other = r.pose pose →
      ({ r.walk walk with pose := other } : Walk ℝ) = r.walk { walk with pose } := by
    rintro pose - rfl
    rfl
  obtain ⟨command, payload⟩ := i
  cases command with
  | draw => exact r.draw_walk walk (Numeral.valueOr payload 1.0)
  | move => exact hchange (r.advance_pose walk.pose (Numeral.valueOr payload 1.0))
  | turn about backward =>
    -- Two reversals, that of the command and that of the mirror, cancel.
    have hdegrees : ∀ degrees : ℝ, (if r.reverses about ^^ backward then -degrees else degrees) =
        if r.reverses about then -(if backward then -degrees else degrees)
        else (if backward then -degrees else degrees) := by
      intro degrees
      cases r.reverses about <;> cases backward <;> simp
    apply hchange
    rw [← rotate_pose, ← hdegrees]
    rfl
  | width => rfl
  | mark => exact r.mark_walk walk (payload.getD [])
  | push => rfl
  | pop => exact r.pop_walk walk

/-- A walk by mirrored instructions is the mirrored walk. -/
theorem run_walk (angle : ℝ) (walk : Walk ℝ) (list : List Instruction) :
    (r.walk walk).run angle (list.map r.instruction) = r.walk (walk.run angle list) := by
  induction list generalizing walk with
  | nil => rfl
  | cons i list ih => rw [List.map_cons, Walk.run_cons, Walk.run_cons, step_walk, ih]

/-- A word with its turns exchanged, those of yaw and roll or those of pitch and roll, draws the
tree in the mirror: one coordinate of all points and directions has the other sign, and nothing else
changes. This holds in exact arithmetic, for any odd sine and even cosine. -/
theorem interpret_word (angle : ℝ) (w : Word) :
    interpret angle (r.word w) = r.skeleton (interpret angle w) := by
  have hstart : r.walk .start = (.start : Walk ℝ) := by
    rw [Reflection.walk, Walk.start, pose_start, Array.map_empty, Array.map_empty]
    rfl
  rw [interpret, instructions_word, ← hstart, run_walk]
  rfl

end

def spray : Word :=
  ['+', 'F', '[', '^', '(', '9', ')', '/', 'F', '@', '(', 'f', ':', '+', ')', ']']

/-- Both mirrors at a word with turns of all three kinds, and a symbol of a turn in the name of a
marker. -/
theorem spray_interpret_word :
    x.word spray =
        ['-', 'F', '[', '^', '(', '9', ')', '\\', 'F', '@', '(', 'f', ':', '+', ')', ']'] ∧
      interpret (25 : ℝ) (x.word spray) = x.skeleton (interpret 25 spray) ∧
      z.word spray =
        ['+', 'F', '[', '&', '(', '9', ')', '\\', 'F', '@', '(', 'f', ':', '+', ')', ']'] ∧
      interpret (25 : ℝ) (z.word spray) = z.skeleton (interpret 25 spray) :=
  ⟨by decide +kernel, x.interpret_word 25 spray, by decide +kernel, z.interpret_word 25 spray⟩

end Arbor.Reflection
