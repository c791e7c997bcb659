import Mathlib.Computability.RegularExpressions
import Mathlib.Tactic.FinCases
import Mathlib.Tactic.IntervalCases
import Arbor.Symbols.Numeral

/-! The pattern of decimal numerals, as a regular expression. The words that match it are the texts
of the numerals whose parts hold what they should. -/

namespace Arbor

/-! ### Parts of numerals -/

namespace Numeral

def AreDigits (w : Word) : Prop :=
  ∀ c ∈ w, c.isDigit

def IsSign : Option Char → Prop
  | none => True
  | some c => c = '+' ∨ c = '-'

def pointText (fraction : Option Word) : Word :=
  fraction.elim [] ('.' :: ·)

def exponentText (exponent : Option Exponent) : Word :=
  exponent.elim [] Exponent.text

@[simp]
theorem pointText_none : pointText none = [] := rfl

@[simp]
theorem pointText_some (digits : Word) : pointText (some digits) = '.' :: digits := rfl

@[simp]
theorem exponentText_none : exponentText none = [] := rfl

@[simp]
theorem exponentText_some (e : Exponent) : exponentText (some e) = e.text := rfl

/-- The parts of a numeral in the order in which they are written. -/
theorem text_eq (n : Numeral) :
    n.text = n.sign.toList ++ (n.whole ++ pointText n.fraction) ++ exponentText n.exponent := by
  rcases n with ⟨sign, whole, _ | digits, _ | e⟩ <;> simp [text]

end Numeral

open Numeral

structure Exponent.IsWritten (e : Exponent) : Prop where
  letter : e.letter = 'e' ∨ e.letter = 'E'
  sign : IsSign e.sign
  digits : AreDigits e.digits
  digits_ne_nil : e.digits ≠ []

/-- Whether the parts of a numeral hold what they should. One digit at least stands before the
exponent. -/
structure Numeral.IsWritten (n : Numeral) : Prop where
  sign : IsSign n.sign
  whole : AreDigits n.whole
  fraction : AreDigits (n.fraction.getD [])
  exists_digit : n.whole ≠ [] ∨ n.fraction.getD [] ≠ []
  exponent : ∀ e, n.exponent = some e → e.IsWritten

namespace Numeral.Pattern

open RegularExpression

/-! ### The pattern -/

def oneOf (chars : Word) : RegularExpression Char :=
  (chars.map char).sum

def optional (pattern : RegularExpression Char) : RegularExpression Char :=
  1 + pattern

def digit : RegularExpression Char :=
  oneOf ['0', '1', '2', '3', '4', '5', '6', '7', '8', '9']

def digits : RegularExpression Char :=
  digit.star

def someDigits : RegularExpression Char :=
  digit * digits

def sign : RegularExpression Char :=
  optional (oneOf ['+', '-'])

def mantissa : RegularExpression Char :=
  someDigits * optional (char '.' * digits) + char '.' * someDigits

def power : RegularExpression Char :=
  oneOf ['e', 'E'] * sign * someDigits

def numeral : RegularExpression Char :=
  sign * mantissa * optional power

/-! ### Matches -/

variable {w : Word}

theorem mem_oneOf {chars : Word} : w ∈ (oneOf chars).matches' ↔ ∃ c ∈ chars, w = [c] := by
  induction chars with
  | nil => simp [oneOf]
  | cons c chars ih =>
    have hsum : w ∈ (oneOf (c :: chars)).matches' ↔ w = [c] ∨ w ∈ (oneOf chars).matches' := Iff.rfl
    rw [hsum, ih, List.exists_mem_cons_iff]

theorem mem_optional {pattern : RegularExpression Char} :
    w ∈ (optional pattern).matches' ↔ w = [] ∨ w ∈ pattern.matches' :=
  Iff.rfl

/-- A word matches two patterns one after the other if it splits into words that match them. -/
theorem mem_mul {first second : RegularExpression Char} :
    w ∈ (first * second).matches' ↔
      ∃ u ∈ first.matches', ∃ v ∈ second.matches', u ++ v = w :=
  Iff.rfl

theorem mem_point_mul {pattern : RegularExpression Char} :
    w ∈ (char '.' * pattern).matches' ↔ ∃ v ∈ pattern.matches', '.' :: v = w := by
  rw [mem_mul, matches'_char]
  exact exists_eq_left

theorem mem_digit : w ∈ digit.matches' ↔ ∃ c : Char, c.isDigit ∧ w = [c] := by
  have hdigit (c : Char) : c ∈ ['0', '1', '2', '3', '4', '5', '6', '7', '8', '9'] ↔ c.isDigit := by
    rw [Char.isDigit_iff_toNat]
    constructor
    · intro h
      fin_cases h <;> decide
    · rintro ⟨hlower, hupper⟩
      change 48 ≤ c.toNat at hlower
      change c.toNat ≤ 57 at hupper
      rw [← Char.ofNat_toNat c]
      interval_cases c.toNat <;> decide
  rw [digit, mem_oneOf]
  exact exists_congr fun c => and_congr_left' (hdigit c)

theorem mem_digits : w ∈ digits.matches' ↔ AreDigits w := by
  rw [digits, matches'_star, Language.mem_kstar]
  constructor
  · rintro ⟨words, rfl, hwords⟩ c hc
    obtain ⟨word, hword, hcword⟩ := List.mem_flatten.1 hc
    obtain ⟨d, hd, rfl⟩ := mem_digit.1 (hwords word hword)
    rwa [List.mem_singleton.1 hcword]
  · intro h
    refine ⟨w.map fun c => [c], ?_, ?_⟩
    · exact (List.flatMap_singleton' w).symm
    · intro word hword
      obtain ⟨c, hc, rfl⟩ := List.mem_map.1 hword
      exact mem_digit.2 ⟨c, h c hc, rfl⟩

theorem mem_someDigits : w ∈ someDigits.matches' ↔ AreDigits w ∧ w ≠ [] := by
  rw [someDigits, mem_mul]
  constructor
  · rintro ⟨_, hfirst, others, hothers, rfl⟩
    obtain ⟨c, hc, rfl⟩ := mem_digit.1 hfirst
    exact ⟨List.forall_mem_cons.2 ⟨hc, mem_digits.1 hothers⟩, List.cons_ne_nil _ _⟩
  · rintro ⟨hdigits, hne⟩
    obtain ⟨c, others, rfl⟩ := List.exists_cons_of_ne_nil hne
    obtain ⟨hc, hothers⟩ := List.forall_mem_cons.1 hdigits
    exact ⟨[c], mem_digit.2 ⟨c, hc, rfl⟩, others, mem_digits.2 hothers, rfl⟩

theorem mem_sign : w ∈ sign.matches' ↔ ∃ s : Option Char, IsSign s ∧ s.toList = w := by
  rw [sign, mem_optional, mem_oneOf]
  constructor
  · rintro (rfl | ⟨c, hc, rfl⟩)
    · exact ⟨none, trivial, rfl⟩
    · exact ⟨some c, List.mem_pair.1 hc, rfl⟩
  · rintro ⟨_ | c, hs, rfl⟩
    · exact Or.inl rfl
    · exact Or.inr ⟨c, List.mem_pair.2 hs, rfl⟩

/-- A mantissa has a digit on one side of the point at least. -/
theorem mem_mantissa :
    w ∈ mantissa.matches' ↔ ∃ (whole : Word) (fraction : Option Word), AreDigits whole ∧
      AreDigits (fraction.getD []) ∧ (whole ≠ [] ∨ fraction.getD [] ≠ []) ∧
      whole ++ pointText fraction = w := by
  have hsum : w ∈ mantissa.matches' ↔
      w ∈ (someDigits * optional (char '.' * digits)).matches' ∨
        w ∈ (char '.' * someDigits).matches' := Iff.rfl
  rw [hsum, mem_mul, mem_point_mul]
  constructor
  · rintro (⟨whole, hwhole, v, hv, rfl⟩ | ⟨behind, hbehind, rfl⟩)
    · obtain ⟨hdigits, hne⟩ := mem_someDigits.1 hwhole
      rcases mem_optional.1 hv with rfl | hpoint
      · exact ⟨whole, none, hdigits, nofun, Or.inl hne, rfl⟩
      · obtain ⟨behind, hbehind, rfl⟩ := mem_point_mul.1 hpoint
        exact ⟨whole, some behind, hdigits, mem_digits.1 hbehind, Or.inl hne, rfl⟩
    · obtain ⟨hdigits, hne⟩ := mem_someDigits.1 hbehind
      exact ⟨[], some behind, nofun, hdigits, Or.inr hne, rfl⟩
  · rintro ⟨whole, fraction, hwhole, hfraction, hdigit, rfl⟩
    by_cases hne : whole = []
    · -- Without digits in front of the point there are some behind it.
      subst hne
      have hbehind := hdigit.resolve_left fun h => h rfl
      cases fraction with
      | none => exact absurd rfl hbehind
      | some behind => exact Or.inr ⟨behind, mem_someDigits.2 ⟨hfraction, hbehind⟩, rfl⟩
    · refine Or.inl ⟨whole, mem_someDigits.2 ⟨hwhole, hne⟩, pointText fraction, ?_, rfl⟩
      cases fraction with
      | none => exact Or.inl rfl
      | some behind => exact Or.inr (mem_point_mul.2 ⟨behind, mem_digits.2 hfraction, rfl⟩)

/-- A power has its letter, perhaps a sign, and a digit at least. -/
theorem mem_power : w ∈ power.matches' ↔ ∃ e : Exponent, e.IsWritten ∧ e.text = w := by
  rw [power, mem_mul]
  constructor
  · rintro ⟨_, hfront, digits, hdigits, rfl⟩
    obtain ⟨_, hfirst, _, hsecond, rfl⟩ := mem_mul.1 hfront
    obtain ⟨letter, hletter, rfl⟩ := mem_oneOf.1 hfirst
    obtain ⟨sign, hsign, rfl⟩ := mem_sign.1 hsecond
    obtain ⟨hdigits, hne⟩ := mem_someDigits.1 hdigits
    exact ⟨⟨letter, sign, digits⟩, ⟨List.mem_pair.1 hletter, hsign, hdigits, hne⟩, rfl⟩
  · rintro ⟨e, he, rfl⟩
    have hletter : [e.letter] ∈ (oneOf ['e', 'E']).matches' :=
      mem_oneOf.2 ⟨e.letter, List.mem_pair.2 he.letter, rfl⟩
    have hsign : e.sign.toList ∈ sign.matches' := mem_sign.2 ⟨e.sign, he.sign, rfl⟩
    have hdigits : e.digits ∈ someDigits.matches' :=
      mem_someDigits.2 ⟨he.digits, he.digits_ne_nil⟩
    exact ⟨_, mem_mul.2 ⟨_, hletter, _, hsign, rfl⟩, _, hdigits, rfl⟩

/-- What matches are the texts of the numerals. -/
theorem mem_numeral : w ∈ numeral.matches' ↔ ∃ n : Numeral, n.IsWritten ∧ n.text = w := by
  rw [numeral, mem_mul]
  constructor
  · rintro ⟨_, hfront, v, hv, rfl⟩
    obtain ⟨_, hfirst, _, hsecond, rfl⟩ := mem_mul.1 hfront
    obtain ⟨sign, hsign, rfl⟩ := mem_sign.1 hfirst
    obtain ⟨whole, fraction, hwhole, hfraction, hdigit, rfl⟩ := mem_mantissa.1 hsecond
    rcases mem_optional.1 hv with rfl | hpower
    · exact ⟨⟨sign, whole, fraction, none⟩, ⟨hsign, hwhole, hfraction, hdigit, nofun⟩, text_eq _⟩
    · obtain ⟨e, he, rfl⟩ := mem_power.1 hpower
      refine ⟨⟨sign, whole, fraction, some e⟩, ⟨hsign, hwhole, hfraction, hdigit, ?_⟩, text_eq _⟩
      intro e' he'
      rwa [← Option.some.inj he']
  · rintro ⟨n, hn, rfl⟩
    have hsign : n.sign.toList ∈ sign.matches' := mem_sign.2 ⟨n.sign, hn.sign, rfl⟩
    have hmantissa : n.whole ++ pointText n.fraction ∈ mantissa.matches' :=
      mem_mantissa.2 ⟨n.whole, n.fraction, hn.whole, hn.fraction, hn.exists_digit, rfl⟩
    have hpower : exponentText n.exponent ∈ (optional power).matches' := by
      cases he : n.exponent with
      | none => exact Or.inl rfl
      | some e => exact Or.inr (mem_power.2 ⟨e, hn.exponent e he, rfl⟩)
    rw [text_eq]
    exact ⟨_, mem_mul.2 ⟨_, hsign, _, hmantissa, rfl⟩, _, hpower, rfl⟩

end Numeral.Pattern

end Arbor
