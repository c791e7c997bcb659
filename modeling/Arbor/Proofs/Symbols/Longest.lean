import Arbor.Scalar.Binary
import Arbor.Proofs.Symbols.Scan

/-! Numbers are read by the longest match. Of the fronts of a payload, behind its blanks, the
reader takes the longest that is a numeral, so the default stands in only where there is none or
where the number is too large. -/

namespace Arbor.Numeral

/-! ### The longest front -/

/-- The longest front of a word that is in a language, or the empty word where none is. -/
def IsLongestFront (language : Language Char) (w front : Word) : Prop :=
  (front <+: w ∧ front ∈ language ∧
    ∀ other, other <+: w → other ∈ language → other.length ≤ front.length) ∨
  (front = [] ∧ ∀ other, other <+: w → other ∉ language)

def leadingText (payload : Word) : Word :=
  (leading? payload).elim [] text

/-- A numeral at the front of a word is found, or a longer one. -/
theorem exists_scan?_of_mem {w front : Word} (hfront : front <+: w)
    (h : front ∈ Pattern.numeral.matches') :
    ∃ m, scan? w = some m ∧ front.length ≤ m.text.length := by
  obtain ⟨n, hn, rfl⟩ := Pattern.mem_numeral.1 h
  obtain ⟨v, rfl⟩ := hfront
  obtain ⟨m, hscan, hle, -⟩ := exists_scan?_append hn v
  exact ⟨m, hscan, hle.length_le⟩

/-- Nothing is found only where no front is a numeral. -/
theorem scan?_eq_none_iff {w : Word} :
    scan? w = none ↔ ∀ front, front <+: w → front ∉ Pattern.numeral.matches' := by
  constructor
  · intro hnone front hfront h
    obtain ⟨m, hscan, -⟩ := exists_scan?_of_mem hfront h
    rw [hnone] at hscan
    cases hscan
  · intro h
    apply Option.eq_none_iff_forall_ne_some.2
    intro n hscan
    obtain ⟨hn, hfront⟩ := scan?_spec hscan
    exact h n.text hfront (Pattern.mem_numeral.2 ⟨n, hn, rfl⟩)

/-- Behind the blanks, the longest front that is a numeral is what the number is read from. -/
theorem isLongestFront_leadingText (payload : Word) :
    IsLongestFront Pattern.numeral.matches' (payload.dropWhile isBlank) (leadingText payload) := by
  cases hscan : leading? payload with
  | none =>
    rw [leadingText, hscan]
    exact Or.inr ⟨rfl, scan?_eq_none_iff.1 hscan⟩
  | some n =>
    obtain ⟨hn, hfront⟩ := scan?_spec hscan
    rw [leadingText, hscan]
    refine Or.inl ⟨hfront, Pattern.mem_numeral.2 ⟨n, hn, rfl⟩, ?_⟩
    intro other hother h
    obtain ⟨m, hm, hle⟩ := exists_scan?_of_mem hother h
    rwa [Option.some.inj (hscan.symm.trans hm)]

-- An exponent needs a digit, a point needs one on either side.
example : leadingText "7e+".toList = "7".toList := by decide

example : leadingText "1.e5.2".toList = "1.e5".toList := by decide

example : leadingText "-.".toList = [] := by decide

/-! ### Values -/

/-- With two values to tell apart, only nothing gives way to every default. -/
theorem forall_getD_eq_iff {β : Type} [Nontrivial β] {x : Option β} :
    (∀ default, x.getD default = default) ↔ x = none := by
  constructor
  · intro h
    by_contra hsome
    obtain ⟨y, rfl⟩ := Option.ne_none_iff_exists'.1 hsome
    obtain ⟨default, hne⟩ := exists_ne y
    exact hne (h default).symm
  · rintro rfl default
    rfl

section Parse

variable {α : Type} [Scalar α] {parse : Word → Option α}

/-- What is asked of a reader of whole words: it reads numerals as their values, and it refuses
the empty word. -/
structure ReadsNumerals (parse : Word → Option α) : Prop where
  nil : parse [] = none
  text : ∀ n : Numeral, n.IsWritten → parse n.text = some n.value

def parse? (w : Word) : Option α :=
  ((scan? w).filter fun n => n.text = w).map value

/-- The reader that goes with the scanner does what is asked of a reader. -/
theorem readsNumerals_parse? : ReadsNumerals (parse? : Word → Option α) where
  nil := rfl
  text n hn := by
    have hwhole : (some n).filter (fun m => m.text = n.text) = some n :=
      Option.filter_some_pos (decide_eq_true rfl)
    rw [parse?, scan?_text hn, hwhole]
    rfl

theorem parse_leadingText (h : ReadsNumerals parse) (payload : Word) :
    parse (leadingText payload) = (leading? payload).map value := by
  rw [leadingText]
  cases hscan : leading? payload with
  | none => exact h.nil
  | some n => exact h.text n (scan?_spec hscan).1

/-- The number of a payload is its leading text, read as a whole and dropped if it is not finite. -/
theorem valueOr_eq (h : ReadsNumerals parse) (payload : Option Word) (default : α) :
    valueOr payload default =
      ((payload.bind fun w => parse (leadingText w)).filter Scalar.isFinite).getD default := by
  have hread : (payload.bind fun w => parse (leadingText w)) =
      (payload.bind leading?).map value := by
    rw [Option.map_bind]
    exact congrArg payload.bind (funext (parse_leadingText h))
  rw [valueOr, hread]
  generalize ((payload.bind leading?).map value : Option α) = number
  cases number with
  | none => rfl
  | some x =>
    dsimp only
    split
    case isTrue hfinite => rw [Option.filter_some_pos hfinite, Option.getD_some]
    case isFalse hinfinite =>
      rw [Option.filter_some_neg (Bool.of_not_eq_true hinfinite), Option.getD_none]

theorem parse_leadingText_eq_none_iff (h : ReadsNumerals parse) {payload : Word} :
    parse (leadingText payload) = none ↔
      ∀ front, front <+: payload.dropWhile isBlank → front ∉ Pattern.numeral.matches' := by
  rw [parse_leadingText h, Option.map_eq_none_iff, leading?, scan?_eq_none_iff]

theorem exists_parse_leadingText (h : ReadsNumerals parse) {payload : Word}
    (hne : leadingText payload ≠ []) : ∃ x, parse (leadingText payload) = some x := by
  rw [← Option.ne_none_iff_exists']
  intro hnone
  have hfronts := (parse_leadingText_eq_none_iff h).1 hnone
  rcases isLongestFront_leadingText payload with ⟨hfront, hmem, -⟩ | ⟨hnil, -⟩
  · exact hfronts _ hfront hmem
  · exact hne hnil

/-- A default shows through where nothing is read or where what is read is not finite. -/
theorem forall_valueOr_eq_iff [Nontrivial α] (h : ReadsNumerals parse) {payload : Option Word} :
    (∀ default : α, valueOr payload default = default) ↔
      ∀ w x, payload = some w → parse (leadingText w) = some x → ¬Scalar.isFinite x := by
  simp only [valueOr_eq h, forall_getD_eq_iff, Option.filter_eq_none_iff,
    Option.bind_eq_some_iff, forall_exists_index, and_imp]
  exact forall_comm

/-- The number that a payload is read as is that of the longest front, behind its blanks, that is a
numeral. The text of this front, where there is one, can be read. The default stands in where there
is no payload or no such front, or where the number is not finite, and nowhere else. -/
theorem valueOr_readsLongestFront [Nontrivial α] (h : ReadsNumerals parse) :
    (∀ w, IsLongestFront Pattern.numeral.matches' (w.dropWhile isBlank) (leadingText w)) ∧
    (∀ w, leadingText w ≠ [] → ∃ x, parse (leadingText w) = some x) ∧
    (∀ payload default, valueOr payload default =
      ((payload.bind fun w => parse (leadingText w)).filter Scalar.isFinite).getD default) ∧
    ∀ payload, (∀ default : α, valueOr payload default = default) ↔
      payload = none ∨ ∃ w, payload = some w ∧
        ((∀ front, front <+: w.dropWhile isBlank → front ∉ Pattern.numeral.matches') ∨
          ∃ x, parse (leadingText w) = some x ∧ ¬Scalar.isFinite x) := by
  refine ⟨isLongestFront_leadingText, fun w => exists_parse_leadingText h, valueOr_eq h, ?_⟩
  intro payload
  rw [forall_valueOr_eq_iff h]
  cases payload with
  | none => exact iff_of_true nofun (Or.inl rfl)
  | some w =>
    constructor
    · intro hall
      refine Or.inr ⟨w, rfl, ?_⟩
      cases hx : parse (leadingText w) with
      | none => exact Or.inl ((parse_leadingText_eq_none_iff h).1 hx)
      | some x => exact Or.inr ⟨x, rfl, hall w x rfl hx⟩
    · rintro (hnone | ⟨w', hw', hfalls⟩) u x hu hx
      · cases hnone
      · obtain rfl := Option.some.inj hw'
        obtain rfl := Option.some.inj hu
        rcases hfalls with hfronts | ⟨x', hx', hinfinite⟩
        · rw [(parse_leadingText_eq_none_iff h).2 hfronts] at hx
          cases hx
        · rwa [← Option.some.inj (hx'.symm.trans hx)]

end Parse

/-- Behind a blank a negative number with an exponent is read, up to the letter that is not part of
it. A number beyond the largest is not. -/
theorem padded_readsLongestFront :
    ReadsNumerals (parse? : Word → Option Float32) ∧
    leadingText " -4e1x".toList = "-4e1".toList ∧
    IsLongestFront Pattern.numeral.matches' "-4e1x".toList "-4e1".toList ∧
    valueOr (some " -4e1x".toList) (1.0 : Float32) = -40.0 ∧
    ∀ default : Float32, valueOr (some "1e39".toList) default = default := by
  have hread : ReadsNumerals (parse? : Word → Option Float32) := readsNumerals_parse?
  have hnontrivial : Nontrivial Float32 := ⟨⟨0.0, 1.0, by decide⟩⟩
  obtain ⟨hlongest, -, hvalue, hfalls⟩ := valueOr_readsLongestFront hread
  have htext : leadingText " -4e1x".toList = "-4e1".toList := by decide
  refine ⟨hread, htext, ?_, ?_, ?_⟩
  · have hfront := hlongest " -4e1x".toList
    rwa [htext] at hfront
  · rw [hvalue]
    decide +kernel
  · refine (hfalls _).2 (Or.inr ⟨_, rfl, Or.inr ?_⟩)
    refine ⟨(parse? "1e39".toList).getD 0.0, ?_, ?_⟩
    · decide +kernel
    · decide +kernel

end Arbor.Numeral
