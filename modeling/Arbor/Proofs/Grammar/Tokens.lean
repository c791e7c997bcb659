import Arbor.Symbols.Payload

/-! Words split into tokens. The splitting knows no rules: a payload is a token, and so is every
symbol outside of payloads. -/

namespace Arbor

inductive Token
  | payload (text : Word)
  | symbol (c : Char)
  deriving DecidableEq, Repr

namespace Token

def word : Token → Word
  | payload text => Word.enclose text
  | symbol c => [c]

def words (tokens : List Token) : Word :=
  tokens.flatMap word

/-- Whether tokens are those of the word they make: a payload ends at the first `)`, and a `(` is a
symbol only where no `)` follows. -/
def AreSplit : List Token → Prop
  | [] => True
  | payload text :: tokens => ')' ∉ text ∧ AreSplit tokens
  | symbol c :: tokens => (c = '(' → ')' ∉ words tokens) ∧ AreSplit tokens

@[simp]
theorem words_nil : words [] = [] := rfl

@[simp]
theorem words_cons (token : Token) (tokens : List Token) :
    words (token :: tokens) = token.word ++ words tokens := rfl

end Token

namespace Word

def tokens (w : Word) : List Token :=
  match w with
  | [] => []
  | c :: rest =>
    match _h : splitPayload? (c :: rest) with
    | some (payload, after) => .payload payload :: tokens after
    | none => .symbol c :: tokens rest
termination_by w.length
decreasing_by
  · have := length_lt_of_splitPayload? _h; simpa using this
  · simp

@[simp]
theorem tokens_nil : tokens [] = [] := by
  rw [tokens]

/-- A payload at the front is a token of its own. -/
theorem tokens_of_split {w payload after : Word} (h : splitPayload? w = some (payload, after)) :
    tokens w = .payload payload :: tokens after := by
  cases w with
  | nil => simp at h
  | cons c rest =>
    rw [tokens]
    split
    · rename_i h'
      rw [h, Option.some.injEq, Prod.mk.injEq] at h'
      obtain ⟨rfl, rfl⟩ := h'
      rfl
    · rename_i h'
      simp [h] at h'

/-- Without a payload at the front, the first symbol stands alone. -/
theorem tokens_cons_of_none {c : Char} {rest : Word} (h : splitPayload? (c :: rest) = none) :
    tokens (c :: rest) = .symbol c :: tokens rest := by
  rw [tokens]
  split
  · rename_i h'
    simp [h] at h'
  · rfl

/-- Nothing is lost in the splitting. -/
@[simp]
theorem words_tokens (w : Word) : Token.words (tokens w) = w := by
  fun_induction tokens w with
  | case1 => rfl
  | case2 c rest payload after h ih =>
    obtain ⟨hw, -⟩ := splitPayload?_eq_some_iff.1 h
    rw [Token.words_cons, ih, hw, Token.word]
  | case3 c rest h ih => rw [Token.words_cons, ih, Token.word, List.singleton_append]

/-- The tokens of a word are cut where a reader cuts it. -/
theorem areSplit_tokens (w : Word) : Token.AreSplit (tokens w) := by
  fun_induction tokens w with
  | case1 => exact trivial
  | case2 c rest payload after h ih => exact ⟨(splitPayload?_eq_some_iff.1 h).2, ih⟩
  | case3 c rest h ih =>
    refine ⟨?_, ih⟩
    rw [words_tokens]
    exact splitPayload?_eq_none_iff.1 h

/-- There is only one way to cut a word into tokens. -/
theorem tokens_eq_iff {w : Word} {ts : List Token} :
    tokens w = ts ↔ Token.words ts = w ∧ Token.AreSplit ts := by
  constructor
  · rintro rfl
    exact ⟨words_tokens w, areSplit_tokens w⟩
  · rintro ⟨rfl, h⟩
    -- The first token is split off as it is, since nothing behind it closes an earlier payload.
    induction ts with
    | nil => exact tokens_nil
    | cons token ts ih =>
      cases token with
      | payload text =>
        rw [Token.words_cons, Token.word, tokens_of_split (splitPayload?_enclose h.1 _), ih h.2]
      | symbol c =>
        have hc : splitPayload? (c :: Token.words ts) = none := splitPayload?_eq_none_iff.2 h.1
        rw [Token.words_cons, Token.word, List.singleton_append, tokens_cons_of_none hc, ih h.2]

example : tokens "F(F)G)(F".toList =
    [.symbol 'F', .payload ['F'], .symbol 'G', .symbol ')', .symbol '(', .symbol 'F'] := by
  cbv

end Word

end Arbor
