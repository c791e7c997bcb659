import Arbor.FileTree.Basic
import Arbor.FileTree.Hotspot
import Arbor.FileTree.Seed
import Arbor.Symbols.Payload

/-! A file hierarchy as a list of drawing steps. Each entry draws its random numbers from a
generator of its own, seeded by its path, so the drawing of a subtree depends on that subtree
alone. -/

namespace Arbor

inductive Step (α : Type)
  | push
  | pop
  | width (radius : α)
  | draw (length : α)
  | roll (angle : α)
  | yaw (angle : α)
  | pitch (angle : α)
  | mark (kind : EntryKind) (path : String)
  /-- The tip of a leaf's branch, which the organic rules grow into a cluster. -/
  | sprout

namespace Step

variable {α : Type} [Scalar α]

def numberPayload (places : Nat) (x : α) : Word :=
  Word.enclose (Scalar.toFixed places x).text

def word : Step α → Word
  | push => ['[']
  | pop => [']']
  | width radius => '!' :: numberPayload 3 radius
  | draw length => 'G' :: numberPayload 2 length
  | roll angle => '/' :: numberPayload 1 angle
  | yaw angle => '+' :: numberPayload 1 angle
  | pitch angle => '^' :: numberPayload 1 angle
  | mark kind path => '@' :: Word.enclose (kind.payload path)
  | sprout => ['F']

def words (steps : List (Step α)) : Word :=
  steps.flatMap word

@[simp]
theorem words_nil : words ([] : List (Step α)) = [] := rfl

@[simp]
theorem words_cons (step : Step α) (steps : List (Step α)) :
    words (step :: steps) = step.word ++ words steps := rfl

@[simp]
theorem words_append (first second : List (Step α)) :
    words (first ++ second) = words first ++ words second :=
  List.flatMap_append

end Step

namespace FileTree

variable {α : Type} [Scalar α]

def rootRadius : α := 0.3

def minBranchLength : α := 1.5

def maxBranchLength : α := 6.0

def defaultBranchLength : α := 2.5

def linesPerUnit : α := 40.0

def baseYaw : α := 45.0

def riskYaw : α := 5.0

def branchLength : Option Metadata → α
  | none => defaultBranchLength
  | some metadata =>
    Scalar.clamp ((metadata.lines : α) / linesPerUnit) minBranchLength maxBranchLength

def branchRadius (parent : α) : EntryKind → α
  | .directory => parent * 0.7
  | .file => parent * 0.4

structure Shape (α : Type) where
  length : α
  yaw : α
  pitch : α

/-- The shape of the branch of an entry, from three draws of its own generator, which comes back
behind them. -/
def shape (metadata : Option Metadata) (risk : α) (gen : Generator) : Shape α × Generator :=
  let (stretch, gen) := gen.unit α
  let (twist, gen) := gen.unit α
  let (lift, gen) := gen.unit α
  (⟨branchLength metadata * (0.8 + stretch * 0.4),
    baseYaw + risk * riskYaw + (twist - 0.5) * 15.0,
    (lift - 0.5) * 30.0⟩, gen)

/-- A branch of a given shape. A pitch of at most two degrees either way is left out. -/
def branchSteps (radius : α) (shape : Shape α) : List (Step α) :=
  .yaw shape.yaw ::
    (if -2.0 ≤ shape.pitch ∧ shape.pitch ≤ 2.0 then [] else [.pitch shape.pitch]) ++
    [.width radius, .draw shape.length]

def trunkSteps (radius : α) (gen : Generator) : List (Step α) :=
  [.width radius, .draw (2.5 + (gen.unit α).1 * 1.5)]

def tipSteps (radius : α) (path : String) : List (Step α) :=
  [.mark .file path, .width (radius * 0.5), .sprout]

mutual

/-- The drawing of an entry inside its parent's: its branch, and at the end of it the trunk and the
children of a directory that has some, or a marker. Nothing here depends on the entry's
siblings. -/
def limb (base : UInt32) (riskAt : String → α) (parentRadius : α) : FileTree → List (Step α)
  | entry _ path kind metadata children =>
    let radius := branchRadius parentRadius kind
    let (shape, gen) := shape metadata (riskAt path) (Generator.ofPath path base)
    branchSteps radius shape ++
      (if kind = .directory ∧ ¬children.isEmpty then
        trunkSteps radius gen ++ limbs base riskAt radius (360.0 / (children.length : α)) 0 children
      else tipSteps radius path)

def limbs (base : UInt32) (riskAt : String → α) (radius turn : α) (place : Nat) :
    List FileTree → List (Step α)
  | [] => []
  | child :: rest =>
    .push :: .roll (turn * (place : α)) :: limb base riskAt radius child ++
      .pop :: limbs base riskAt radius turn (place + 1) rest

end

def blueprint (base : UInt32) (hotspots : List (Hotspot α)) : FileTree → List (Step α)
  | entry _ path kind _ children =>
    if children.isEmpty then [.mark kind path]
    else
      trunkSteps rootRadius (Generator.ofPath path base) ++
        limbs base (Hotspot.riskAt hotspots) rootRadius (360.0 / (children.length : α)) 0 children

end FileTree

end Arbor
