import Arbor.Scalar.Basic
import Arbor.Symbols.Blank
import Arbor.Symbols.Payload

namespace Arbor

structure Exponent where
  letter : Char
  sign : Option Char
  digits : Word
  deriving DecidableEq, Repr

structure Numeral where
  sign : Option Char
  whole : Word
  fraction : Option Word
  exponent : Option Exponent
  deriving DecidableEq, Repr

namespace Exponent

def text (e : Exponent) : Word :=
  e.letter :: e.sign.toList ++ e.digits

end Exponent

namespace Numeral

def text (n : Numeral) : Word :=
  n.sign.toList ++ n.whole ++
    (match n.fraction with
      | some digits => '.' :: digits
      | none => []) ++
    (match n.exponent with
      | some e => e.text
      | none => [])

def takeSign : Word → Option Char × Word
  | [] => (none, [])
  | c :: rest => if c = '+' ∨ c = '-' then (some c, rest) else (none, c :: rest)

def takeFraction : Word → Option Word × Word
  | '.' :: rest => (some (rest.takeWhile Char.isDigit), rest.dropWhile Char.isDigit)
  | w => (none, w)

def exponent? : Word → Option Exponent
  | [] => none
  | c :: rest =>
    let (sign, rest) := takeSign rest
    let digits := rest.takeWhile Char.isDigit
    if (c = 'e' ∨ c = 'E') ∧ ¬digits.isEmpty then some ⟨c, sign, digits⟩ else none

/-- The longest numeral at the front of a word, which needs a digit before or behind the point. -/
def scan? (w : Word) : Option Numeral :=
  let (sign, rest) := takeSign w
  let whole := rest.takeWhile Char.isDigit
  let (fraction, rest) := takeFraction (rest.dropWhile Char.isDigit)
  if whole.isEmpty ∧ (fraction.getD []).isEmpty then none
  else some ⟨sign, whole, fraction, exponent? rest⟩

def natural (digits : Word) : Nat :=
  digits.foldl (fun n c => 10 * n + (c.toNat - '0'.toNat)) 0

def scale (n : Numeral) : Int :=
  let written : Int := match n.exponent with
    | none => 0
    | some e => if e.sign = some '-' then -(natural e.digits : Int) else natural e.digits
  written - ((n.fraction.getD []).length : Int)

def value {α : Type} [Scalar α] (n : Numeral) : α :=
  let size : α :=
    OfScientific.ofScientific (natural (n.whole ++ n.fraction.getD [])) (n.scale < 0) n.scale.natAbs
  if n.sign = some '-' then -size else size

def leading? (payload : Word) : Option Numeral :=
  scan? (payload.dropWhile isBlank)

/-- The number that a payload starts with. A default stands in where there is no payload, no
numeral, or a number too large. -/
def valueOr {α : Type} [Scalar α] (payload : Option Word) (default : α) : α :=
  match (payload.bind leading?).map value with
  | some x => if Scalar.isFinite x then x else default
  | none => default

end Numeral

end Arbor
