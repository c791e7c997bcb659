import Arbor.Symbols.Payload

namespace Arbor

inductive EntryKind
  | file
  | directory
  deriving DecidableEq, Repr

namespace EntryKind

def tag : EntryKind → Char
  | file => 'f'
  | directory => 'd'

def ofTag (c : Char) : EntryKind :=
  if c = 'd' then directory else file

def payload (kind : EntryKind) (path : String) : Word :=
  kind.tag :: ':' :: path.toList

/-- The kind and the path in a marker's payload. An ASCII letter and a colon before a path name the
kind; any other payload is a path of a file. -/
def ofPayload : Word → EntryKind × String
  | c :: ':' :: d :: rest =>
    if c.toNat < 128 then (ofTag c, String.ofList (d :: rest))
    else (file, String.ofList (c :: ':' :: d :: rest))
  | w => (file, String.ofList w)

@[simp]
theorem ofTag_tag (kind : EntryKind) : ofTag kind.tag = kind := by
  cases kind <;> rfl

/-- A marker's payload reads back, unless its path is empty. -/
theorem ofPayload_payload (kind : EntryKind) {path : String} (h : path ≠ "") :
    ofPayload (kind.payload path) = (kind, path) := by
  have hne : path.toList ≠ [] := by simpa [String.toList_eq_nil_iff] using h
  obtain ⟨d, rest, hp⟩ := List.exists_cons_of_ne_nil hne
  have htag : kind.tag.toNat < 128 := by cases kind <;> decide
  rw [payload, hp, ofPayload, if_pos htag, ofTag_tag, ← hp, String.ofList_toList]

end EntryKind

end Arbor
