import Mathlib.Data.List.TakeWhile
import Arbor.Proofs.Symbols.Pattern

/-! Scanning a word for a numeral. What is scanned is a numeral at the front of the word, and a
numeral at the front is scanned unless a longer one starts with it: each part ends those before it,
and the last one takes in what it can of the rest. -/

namespace Arbor.Numeral

/-! ### Scanned parts -/

theorem areDigits_takeWhile (w : Word) : AreDigits (w.takeWhile Char.isDigit) :=
  fun _ => List.mem_takeWhile_imp

theorem not_isDigit_point : ¬Char.isDigit '.' := by decide

theorem not_isSign_point : ¬IsSign (some '.') := by
  rintro (h | h) <;> cases h

theorem not_isSign_of_isDigit {c : Char} (h : c.isDigit) : ¬IsSign (some c) := by
  rintro (rfl | rfl) <;> cases h

theorem not_isDigit_letter {e : Exponent} (h : e.IsWritten) : ¬e.letter.isDigit := by
  rcases h.letter with hletter | hletter <;> rw [hletter] <;> decide

theorem letter_ne_point {e : Exponent} (h : e.IsWritten) : e.letter ≠ '.' := by
  rcases h.letter with hletter | hletter <;> rw [hletter] <;> decide

/-- A sign is taken if there is one, and nothing else is. -/
theorem takeSign_append {sign : Option Char} (hsign : IsSign sign) {c : Char}
    (hc : ¬IsSign (some c)) (v : Word) : takeSign (sign.toList ++ c :: v) = (sign, c :: v) := by
  cases sign with
  | none => exact if_neg hc
  | some s => exact if_pos hsign

theorem takeSign_spec {w body : Word} {sign : Option Char} (h : takeSign w = (sign, body)) :
    IsSign sign ∧ sign.toList ++ body = w := by
  cases w with
  | nil =>
    cases h
    exact ⟨trivial, rfl⟩
  | cons c v =>
    rw [takeSign] at h
    split at h
    case isTrue hsign =>
      cases h
      exact ⟨hsign, rfl⟩
    case isFalse =>
      cases h
      exact ⟨trivial, rfl⟩

theorem takeFraction_of_ne {c : Char} (h : c ≠ '.') (v : Word) :
    takeFraction (c :: v) = (none, c :: v) := by
  unfold takeFraction
  split
  case h_1 heq => exact absurd (List.cons.inj heq).1 h
  case h_2 => rfl

/-- What is taken and what is left make up the word. -/
theorem takeFraction_spec {w rest : Word} {fraction : Option Word}
    (h : takeFraction w = (fraction, rest)) :
    AreDigits (fraction.getD []) ∧ pointText fraction ++ rest = w := by
  unfold takeFraction at h
  split at h
  case h_1 v =>
    cases h
    exact ⟨areDigits_takeWhile v, congrArg ('.' :: ·) List.takeWhile_append_dropWhile⟩
  case h_2 =>
    cases h
    exact ⟨nofun, rfl⟩

theorem exponent?_cons (c : Char) (v : Word) :
    exponent? (c :: v) =
      if (c = 'e' ∨ c = 'E') ∧ ¬((takeSign v).2.takeWhile Char.isDigit).isEmpty then
        some ⟨c, (takeSign v).1, (takeSign v).2.takeWhile Char.isDigit⟩
      else none := rfl

/-- A power that is found is written as a power is, at the front of the word. -/
theorem exponent?_spec {w : Word} {e : Exponent} (h : exponent? w = some e) :
    e.IsWritten ∧ e.text <+: w := by
  cases w with
  | nil => cases h
  | cons c v =>
    rcases hv : takeSign v with ⟨sign, rest⟩
    obtain ⟨hsign, rfl⟩ := takeSign_spec hv
    rw [exponent?_cons, hv, Option.ite_none_right_eq_some] at h
    obtain ⟨⟨hletter, hdigit⟩, he⟩ := h
    obtain rfl := Option.some.inj he
    constructor
    · exact ⟨hletter, hsign, areDigits_takeWhile rest, fun hnil => hdigit (List.isEmpty_iff.2 hnil)⟩
    · have hdigits : rest.takeWhile Char.isDigit <+: rest := List.takeWhile_prefix Char.isDigit
      exact List.cons_prefix_cons.2 ⟨rfl, (List.prefix_append_right_inj _).2 hdigits⟩

/-- An exponent takes in the digits behind it. -/
theorem exponent?_append {e : Exponent} (h : e.IsWritten) (v : Word) :
    exponent? (e.text ++ v) = some { e with digits := e.digits ++ v.takeWhile Char.isDigit } := by
  obtain ⟨d, others, hdigits⟩ := List.exists_cons_of_ne_nil h.digits_ne_nil
  have hd : d.isDigit := h.digits d (by rw [hdigits]; exact List.mem_cons_self)
  have hsign : takeSign (e.sign.toList ++ (e.digits ++ v)) = (e.sign, e.digits ++ v) := by
    rw [hdigits]
    exact takeSign_append h.sign (not_isSign_of_isDigit hd) (others ++ v)
  have htext : e.text ++ v = e.letter :: (e.sign.toList ++ (e.digits ++ v)) := by
    rw [Exponent.text, List.append_assoc, List.cons_append]
  have hne : ¬(e.digits ++ v.takeWhile Char.isDigit).isEmpty := by
    rw [hdigits]
    exact Bool.false_ne_true
  rw [htext, exponent?_cons, hsign, List.takeWhile_append_of_pos h.digits]
  exact if_pos ⟨h.letter, hne⟩

/-! ### Scanned numerals -/

/-- The scan in terms of its parts, where the sign and the fraction are known. -/
theorem scan?_of_parts {w body rest : Word} {sign : Option Char} {fraction : Option Word}
    (hsign : takeSign w = (sign, body))
    (hfraction : takeFraction (body.dropWhile Char.isDigit) = (fraction, rest)) :
    scan? w =
      if body.takeWhile Char.isDigit = [] ∧ fraction.getD [] = [] then none
      else some ⟨sign, body.takeWhile Char.isDigit, fraction, exponent? rest⟩ := by
  rw [scan?, hsign]
  dsimp only
  rw [hfraction]
  simp only [List.isEmpty_iff]

theorem isPrefix_exponentText (w : Word) : exponentText (exponent? w) <+: w := by
  cases h : exponent? w with
  | none => exact List.nil_prefix
  | some e => exact (exponent?_spec h).2

/-- What is scanned is a numeral at the front. -/
theorem scan?_spec {w : Word} {n : Numeral} (h : scan? w = some n) :
    n.IsWritten ∧ n.text <+: w := by
  rcases hsign : takeSign w with ⟨sign, body⟩
  rcases hfraction : takeFraction (body.dropWhile Char.isDigit) with ⟨fraction, rest⟩
  obtain ⟨hsigned, hbody⟩ := takeSign_spec hsign
  obtain ⟨hdigits, hrest⟩ := takeFraction_spec hfraction
  rw [scan?_of_parts hsign hfraction, Option.ite_none_left_eq_some] at h
  obtain ⟨hdigit, hn⟩ := h
  obtain rfl := Option.some.inj hn
  constructor
  · exact ⟨hsigned, areDigits_takeWhile body, hdigits, not_and_or.1 hdigit,
      fun e he => (exponent?_spec he).1⟩
  · -- The scanned parts and what is left of the word make up the word.
    have hw : sign.toList ++ (body.takeWhile Char.isDigit ++ pointText fraction) ++ rest = w := by
      rw [List.append_assoc, List.append_assoc, hrest, List.takeWhile_append_dropWhile, hbody]
    rw [text_eq, ← hw]
    exact (List.prefix_append_right_inj _).2 (isPrefix_exponentText rest)

/-- With a point behind its digits a numeral takes in the digits that follow. -/
theorem scan?_pointed {sign : Option Char} {whole behind : Word} (hsign : IsSign sign)
    (hwhole : AreDigits whole) (hbehind : AreDigits behind) (hdigit : whole ≠ [] ∨ behind ≠ [])
    (v : Word) :
    scan? (sign.toList ++ (whole ++ '.' :: (behind ++ v))) =
      some ⟨sign, whole, some (behind ++ v.takeWhile Char.isDigit),
        exponent? (v.dropWhile Char.isDigit)⟩ := by
  have hbody : takeSign (sign.toList ++ (whole ++ '.' :: (behind ++ v))) =
      (sign, whole ++ '.' :: (behind ++ v)) := by
    cases whole with
    | nil => exact takeSign_append hsign not_isSign_point _
    | cons d others =>
      exact takeSign_append hsign (not_isSign_of_isDigit (hwhole d List.mem_cons_self)) _
  -- The digits before the point end there, and those behind it run on.
  have htake : (whole ++ '.' :: (behind ++ v)).takeWhile Char.isDigit = whole := by
    rw [List.takeWhile_append_of_pos hwhole, List.takeWhile_cons_of_neg not_isDigit_point,
      List.append_nil]
  have hfraction :
      takeFraction ((whole ++ '.' :: (behind ++ v)).dropWhile Char.isDigit) =
        (some (behind ++ v.takeWhile Char.isDigit), v.dropWhile Char.isDigit) := by
    rw [List.dropWhile_append_of_pos hwhole, List.dropWhile_cons_of_neg not_isDigit_point,
      takeFraction, List.takeWhile_append_of_pos hbehind, List.dropWhile_append_of_pos hbehind]
  rw [scan?_of_parts hbody hfraction, htake]
  apply if_neg
  rintro ⟨hwhole_nil, hbehind_nil⟩
  rcases hdigit with hne | hne
  · exact hne hwhole_nil
  · exact hne (List.append_eq_nil_iff.1 hbehind_nil).1

/-- Without a point a numeral takes in the digits that follow, and what may follow those. -/
theorem scan?_plain {sign : Option Char} {whole : Word} (hsign : IsSign sign)
    (hwhole : AreDigits whole) (hne : whole ≠ []) (v : Word) :
    scan? (sign.toList ++ (whole ++ v)) =
      some ⟨sign, whole ++ v.takeWhile Char.isDigit, (takeFraction (v.dropWhile Char.isDigit)).1,
        exponent? (takeFraction (v.dropWhile Char.isDigit)).2⟩ := by
  have hbody : takeSign (sign.toList ++ (whole ++ v)) = (sign, whole ++ v) := by
    obtain ⟨d, others, rfl⟩ := List.exists_cons_of_ne_nil hne
    exact takeSign_append hsign (not_isSign_of_isDigit (hwhole d List.mem_cons_self)) _
  have hfraction : takeFraction ((whole ++ v).dropWhile Char.isDigit) =
      ((takeFraction (v.dropWhile Char.isDigit)).1, (takeFraction (v.dropWhile Char.isDigit)).2) := by
    rw [List.dropWhile_append_of_pos hwhole]
  rw [scan?_of_parts hbody hfraction, List.takeWhile_append_of_pos hwhole]
  apply if_neg
  rintro ⟨hwhole_nil, -⟩
  exact hne (List.append_eq_nil_iff.1 hwhole_nil).1

/-- An exponent ends the digits before it, and takes in those that follow. -/
theorem scan?_power {sign : Option Char} {whole : Word} {fraction : Option Word} {e : Exponent}
    (h : (⟨sign, whole, fraction, some e⟩ : Numeral).IsWritten) (v : Word) :
    scan? (sign.toList ++ (whole ++ pointText fraction) ++ (e.text ++ v)) =
      some ⟨sign, whole, fraction,
        some { e with digits := e.digits ++ v.takeWhile Char.isDigit }⟩ := by
  have he := h.exponent e rfl
  -- The letter is neither a digit nor a point, so the mantissa ends in front of it.
  have htake : (e.text ++ v).takeWhile Char.isDigit = [] :=
    List.takeWhile_cons_of_neg (not_isDigit_letter he)
  have hdrop : (e.text ++ v).dropWhile Char.isDigit = e.text ++ v :=
    List.dropWhile_cons_of_neg (not_isDigit_letter he)
  rw [List.append_assoc, List.append_assoc]
  cases fraction with
  | none =>
    have hne : whole ≠ [] := h.exists_digit.resolve_right fun hnil => hnil rfl
    have hfraction : takeFraction (e.text ++ v) = (none, e.text ++ v) :=
      takeFraction_of_ne (letter_ne_point he) _
    refine (scan?_plain h.sign h.whole hne (e.text ++ v)).trans ?_
    rw [htake, hdrop, hfraction, exponent?_append he, List.append_nil]
  | some behind =>
    refine (scan?_pointed h.sign h.whole h.fraction h.exists_digit (e.text ++ v)).trans ?_
    rw [htake, hdrop, exponent?_append he, List.append_nil]
    rfl

/-- A numeral at the front is scanned, or a longer one that starts with it. -/
theorem exists_scan?_append {n : Numeral} (h : n.IsWritten) (v : Word) :
    ∃ m, scan? (n.text ++ v) = some m ∧ n.text <+: m.text ∧ (v = [] → m = n) := by
  obtain ⟨sign, whole, fraction, exponent⟩ := n
  -- The last part that the numeral has takes in what is behind it.
  cases exponent with
  | some e =>
    have htext : (⟨sign, whole, fraction, some e⟩ : Numeral).text ++ v =
        sign.toList ++ (whole ++ pointText fraction) ++ (e.text ++ v) := by simp [text_eq]
    rw [htext]
    refine ⟨_, scan?_power h v, ⟨v.takeWhile Char.isDigit, ?_⟩, ?_⟩
    · simp [text_eq, Exponent.text]
    · rintro rfl
      rw [List.takeWhile_nil, List.append_nil]
  | none =>
    cases fraction with
    | some behind =>
      have htext : (⟨sign, whole, some behind, none⟩ : Numeral).text ++ v =
          sign.toList ++ (whole ++ '.' :: (behind ++ v)) := by simp [text_eq]
      rw [htext]
      refine ⟨_, scan?_pointed h.sign h.whole h.fraction h.exists_digit v, ?_, ?_⟩
      · simp [text_eq]
      · rintro rfl
        rw [List.takeWhile_nil, List.append_nil]
        rfl
    | none =>
      have hne : whole ≠ [] := h.exists_digit.resolve_right fun hnil => hnil rfl
      have htext : (⟨sign, whole, none, none⟩ : Numeral).text ++ v =
          sign.toList ++ (whole ++ v) := by simp [text_eq]
      rw [htext]
      refine ⟨_, scan?_plain h.sign h.whole hne v, ?_, ?_⟩
      · simp [text_eq]
      · rintro rfl
        rw [List.takeWhile_nil, List.append_nil]
        rfl

/-- What is written is read back. -/
theorem scan?_text {n : Numeral} (h : n.IsWritten) : scan? n.text = some n := by
  obtain ⟨m, hscan, -, hsame⟩ := exists_scan?_append h []
  rwa [List.append_nil, hsame rfl] at hscan

end Arbor.Numeral
