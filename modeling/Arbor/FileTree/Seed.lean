import Arbor.Generator

namespace Arbor

/-- The 16-bit units of a character: one, or a surrogate pair beyond the first plane. -/
def units16 (c : Char) : List UInt32 :=
  let offset : UInt32 := c.val - 0x10000
  if c.val < 0x10000 then [c.val] else [0xd800 + offset / 0x400, 0xdc00 + offset % 0x400]

def hashUnit (hash unit : UInt32) : UInt32 :=
  hash * 31 + unit

def unitHash (text : List Char) : UInt32 :=
  (text.flatMap units16).foldl hashUnit 0

def signedSize (word : UInt32) : UInt32 :=
  if word < 0x80000000 then word else 0 - word

def pathHash (path : String) : UInt32 :=
  signedSize (unitHash path.toList)

def pathSeed (path : String) (base : UInt32) : UInt32 :=
  pathHash path + base

def Generator.ofPath (path : String) (base : UInt32) : Generator :=
  ⟨pathSeed path base⟩

/-- The rounds on a text, apart from the hash that they start with. -/
theorem foldl_hashUnit (hash : UInt32) (units : List UInt32) :
    units.foldl hashUnit hash = hash * 31 ^ units.length + units.foldl hashUnit 0 := by
  induction units generalizing hash with
  | nil => simp
  | cons u us ih =>
    rw [List.foldl_cons, List.foldl_cons, ih, ih (hashUnit 0 u)]
    simp only [hashUnit, List.length_cons, UInt32.pow_succ]
    simp only [UInt32.zero_mul, UInt32.zero_add, UInt32.add_mul, UInt32.add_assoc, UInt32.mul_assoc]
    rw [UInt32.mul_comm 31 (31 ^ us.length)]

end Arbor
